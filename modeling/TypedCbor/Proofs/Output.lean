import TypedCbor.Document
import TypedCbor.Proofs.Encoding

namespace TypedCbor

section
variable {definite : Bool}

theorem Config.made_framing (config : Config) (count : Nat) :
    (config.framing count).Made config.definiteLengths count := by
  unfold Config.framing
  constructor
  · intro head member
    split at member
    · cases Option.mem_some.mp member
      rfl
    · cases member
  · intro definite
    rw [if_pos definite]
    rfl

namespace Item

theorem made_untagged {body : Body Item} (made : body.Made definite) : (mk [] body).Made definite :=
  ⟨fun _ member => absurd member List.not_mem_nil, made⟩

theorem made_of_leaf {body : Body Item} (made : body.Made definite) (leaf : body.children = []) :
    (mk [] body).Everywhere (Made definite) := by
  refine .intro (made_untagged made) fun child member => ?_
  rw [body_mk, leaf] at member
  cases member

theorem made_tagged {item : Item} (made : item.Everywhere (Made definite)) (tags : List UInt64) :
    (item.tagged tags).Everywhere (Made definite) := by
  rcases made with ⟨⟨own, body⟩, inside⟩
  refine .intro ⟨fun tag member => ?_, body⟩ inside
  rcases List.mem_append.mp member with added | own'
  · obtain ⟨tag, -, rfl⟩ := List.mem_map.mp added
    exact Head.made_shortest tag.toNat_lt
  · exact own tag own'

theorem made_ofWord (n : UInt64) : (ofWord n).Everywhere (Made definite) :=
  made_of_leaf (Head.made_shortest n.toNat_lt) rfl

theorem made_ofSigned (n : Int64) : (ofSigned n).Everywhere (Made definite) := by
  unfold ofSigned
  split
  · exact made_ofWord _
  · exact made_of_leaf (Head.made_shortest (~~~n).toUInt64.toNat_lt) rfl

theorem made_ofWide {n : Int} {item : Item} (found : ofWide n = .ok item) :
    item.Everywhere (Made definite) := by
  unfold ofWide at found
  split at found <;> split at found
  · cases found
    exact made_of_leaf (Head.made_shortest ‹_›) rfl
  · cases found
  · cases found
    exact made_of_leaf (Head.made_shortest ‹_›) rfl
  · cases found

theorem made_ofInt {kind : IntKind} {n : Int} {item : Item} (found : ofInt kind n = .ok item) :
    item.Everywhere (Made definite) := by
  cases kind with
  | i8 | i16 | i32 | i64 =>
    cases found
    exact made_ofSigned _
  | u8 | u16 | u32 | u64 =>
    cases found
    exact made_ofWord _
  | i128 | u128 => exact made_ofWide found

theorem made_ofText (content : String) : (ofText content).Everywhere (Made definite) :=
  made_of_leaf ⟨_, rfl, rfl⟩ rfl

theorem made_ofBytes (content : Bytes) : (ofBytes content).Everywhere (Made definite) :=
  made_of_leaf ⟨_, rfl, rfl⟩ rfl

theorem made_simple {width : Width} {n : Nat} (fits : n < width.limit) (kept : width ≠ .one) :
    (simple width n).Everywhere (Made definite) :=
  made_of_leaf ⟨fits, kept⟩ rfl

theorem made_compact (bits : UInt64) : (compact bits).Everywhere (Made definite) := by
  unfold compact
  split
  · exact made_simple (by decide) (by decide)
  split
  · exact made_simple (Ieee.halfOfDouble bits).toNat_lt (by decide)
  split
  · exact made_simple (Ieee.singleOfDouble bits).toNat_lt (by decide)
  · exact made_simple bits.toNat_lt (by decide)

theorem made_ofSingle (form : Wire.FloatForm) (bits : UInt32) :
    (ofSingle form bits).Everywhere (Made definite) := by
  cases form with
  | fixed => exact made_simple bits.toNat_lt (by decide)
  | shortest => exact made_compact _

theorem made_ofDouble (form : Wire.FloatForm) (bits : UInt64) :
    (ofDouble form bits).Everywhere (Made definite) := by
  cases form with
  | fixed => exact made_simple bits.toNat_lt (by decide)
  | shortest => exact made_compact _

theorem made_null (object : Bool) :
    (if object then emptyMap else null).Everywhere (Made definite) := by
  cases object with
  | false => exact made_simple (by decide) (by decide)
  | true =>
    refine made_of_leaf ⟨fun head member => ?_, fun _ => rfl⟩ rfl
    cases Option.mem_some.mp member
    rfl

end Item
end

variable {config : Config}

namespace Item

theorem made_array {items : List Item}
    (each : ∀ item ∈ items, item.Everywhere (Made config.definiteLengths)) :
    (array config items).Everywhere (Made config.definiteLengths) :=
  .intro (made_untagged (config.made_framing items.length)) each

theorem made_map {entries : List (Item × Item)}
    (each : ∀ entry ∈ entries, entry.1.Everywhere (Made config.definiteLengths) ∧
      entry.2.Everywhere (Made config.definiteLengths)) :
    (map config entries).Everywhere (Made config.definiteLengths) := by
  refine .intro (made_untagged (config.made_framing entries.length)) ?_
  intro child member
  obtain ⟨entry, present, rfl | rfl⟩ := mem_flattened.mp member
  · exact (each entry present).1
  · exact (each entry present).2

theorem made_keyItem (element : Element) :
    (element.keyItem config).Everywhere (Made config.definiteLengths) := by
  unfold Element.keyItem
  apply made_tagged
  split
  · split
    · exact made_ofSigned _
    · exact made_ofText _
  · exact made_ofText _

theorem made_record {shape : Shape} {fields : List (Element × Item)}
    (each : ∀ field ∈ fields, field.2.Everywhere (Made config.definiteLengths)) :
    (record config shape fields).Everywhere (Made config.definiteLengths) := by
  unfold record
  split
  · apply made_tagged
    apply made_array
    intro item member
    obtain ⟨field, present, rfl⟩ := List.mem_map.mp member
    exact made_tagged (each field present) _
  · apply made_map
    intro entry member
    obtain ⟨field, present, rfl⟩ := List.mem_map.mp member
    exact ⟨made_keyItem field.1, made_tagged (each field present) _⟩

end Item

namespace Value

def Makes (config : Config) (value : Value) : Prop :=
  ∀ markers item, value.item config markers = .ok item →
    item.Everywhere (Item.Made config.definiteLengths)

theorem makes_items {values : List Value} (each : ∀ value ∈ values, value.Makes config)
    {items : List Item} (found : valueItems config values = .ok items) :
    ∀ item ∈ items, item.Everywhere (Item.Made config.definiteLengths) := by
  induction values generalizing items with
  | nil =>
    cases found
    intro item member
    cases member
  | cons value values ih =>
    obtain ⟨here, others⟩ := List.forall_mem_cons.mp each
    obtain ⟨item, first, found⟩ := bind_eq_ok.mp found
    obtain ⟨items, rest, same⟩ := bind_eq_ok.mp found
    cases same
    exact List.forall_mem_cons.mpr ⟨here _ item first, ih others rest⟩

theorem makes_collected {values : List Value} (each : ∀ value ∈ values, value.Makes config)
    {collected : Bytes} {item : Item} (found : collectedItem config values collected = .ok item) :
    item.Everywhere (Item.Made config.definiteLengths) := by
  induction values generalizing collected with
  | nil =>
    cases found
    exact Item.made_ofBytes collected
  | cons value values ih =>
    obtain ⟨here, others⟩ := List.forall_mem_cons.mp each
    rw [collectedItem] at found
    split at found
    · exact ih others found
    · obtain ⟨item, first, found⟩ := bind_eq_ok.mp found
      obtain ⟨items, rest, same⟩ := bind_eq_ok.mp found
      cases same
      apply Item.made_array
      intro item member
      rcases List.mem_append.mp member with replayed | kept
      · obtain ⟨byte, -, rfl⟩ := List.mem_map.mp replayed
        exact Item.made_ofWord _
      · exact List.forall_mem_cons.mpr ⟨here _ _ first, makes_items others rest⟩ item kept

theorem makes_entries {entries : List (Value × Value)}
    (each : ∀ entry ∈ entries, entry.1.Makes config ∧ entry.2.Makes config)
    {items : List (Item × Item)} (found : entryItems config entries = .ok items) :
    ∀ item ∈ items, item.1.Everywhere (Item.Made config.definiteLengths) ∧
      item.2.Everywhere (Item.Made config.definiteLengths) := by
  induction entries generalizing items with
  | nil =>
    cases found
    intro item member
    cases member
  | cons entry entries ih =>
    obtain ⟨⟨keyMakes, valueMakes⟩, others⟩ := List.forall_mem_cons.mp each
    rcases entry with ⟨key, value⟩
    obtain ⟨first, keyFound, found⟩ := bind_eq_ok.mp found
    obtain ⟨second, valueFound, found⟩ := bind_eq_ok.mp found
    obtain ⟨items, rest, same⟩ := bind_eq_ok.mp found
    cases same
    exact List.forall_mem_cons.mpr
      ⟨⟨keyMakes _ first keyFound, valueMakes _ second valueFound⟩, ih others rest⟩

theorem makes_fields {shape : Shape} {fields : List (String × Value)}
    (each : ∀ field ∈ fields, field.2.Makes config) {items : List (Element × Item)}
    (found : fieldItems config shape fields = .ok items) :
    ∀ item ∈ items, item.2.Everywhere (Item.Made config.definiteLengths) := by
  induction fields generalizing items with
  | nil =>
    cases found
    intro item member
    cases member
  | cons field fields ih =>
    obtain ⟨here, others⟩ := List.forall_mem_cons.mp each
    rcases field with ⟨name, value⟩
    obtain ⟨item, first, found⟩ := bind_eq_ok.mp found
    obtain ⟨items, rest, same⟩ := bind_eq_ok.mp found
    cases same
    split
    · exact ih others rest
    · exact List.forall_mem_cons.mpr ⟨here _ item first, ih others rest⟩

theorem makes (config : Config) (value : Value) : value.Makes config := by
  induction value using Value.induction with
  | step value ih =>
    intro markers item found
    cases value with
    | bool value =>
      cases found
      exact Item.made_simple (by cases value <;> decide) (by decide)
    | int kind n => exact Item.made_ofInt found
    | single bits =>
      cases found
      exact Item.made_ofSingle _ bits
    | double bits =>
      cases found
      exact Item.made_ofDouble _ bits
    | char c =>
      cases found
      exact Item.made_ofWord _
    | text content | unitVariant content =>
      cases found
      exact Item.made_ofText content
    | bytes content =>
      cases found
      exact Item.made_ofBytes content
    | unit | none =>
      cases found
      exact Item.made_null markers.object
    | some value | newtype value => exact ih value (by simp [parts]) markers item found
    | visited how value => exact ih value (by simp [parts]) markers item found
    | seq values =>
      rw [Value.item] at found
      split at found
      · exact makes_collected ih found
      · obtain ⟨items, made, rfl⟩ := map_eq_ok.mp found
        exact Item.made_array (makes_items ih made)
    | tuple values =>
      obtain ⟨items, made, rfl⟩ := map_eq_ok.mp found
      exact Item.made_array (makes_items ih made)
    | map entries =>
      obtain ⟨items, made, rfl⟩ := map_eq_ok.mp found
      refine Item.made_map (makes_entries (fun entry member => ?_) made)
      exact ⟨ih _ (mem_flattened.mpr ⟨entry, member, .inl rfl⟩),
        ih _ (mem_flattened.mpr ⟨entry, member, .inr rfl⟩)⟩
    | record name fields =>
      obtain ⟨items, made, rfl⟩ := map_eq_ok.mp found
      exact Item.made_record
        (makes_fields (fun field member => ih _ (List.mem_map_of_mem member)) made)
    | variant name content =>
      obtain ⟨inner, made, rfl⟩ := map_eq_ok.mp found
      refine Item.made_array (List.forall_mem_cons.mpr ⟨Item.made_ofText name, ?_⟩)
      exact List.forall_mem_singleton.mpr (ih content (by simp [parts]) _ inner made)
    | embedded value serialized =>
      obtain ⟨inner, made, rfl⟩ := map_eq_ok.mp found
      refine .intro (Item.made_untagged rfl) ?_
      exact List.forall_mem_singleton.mpr (ih value (by simp [parts]) _ inner made)

end Value

theorem Config.encode_eq_wire (keyed : ∀ descriptor ∈ config.descriptors, descriptor.kind = .keyed)
    (value : Value) : config.encode value = Item.wire <$> value.item config {} := by
  rw [Config.encode, Encoder.encode_written keyed]
  change (_ <$> value.item config {}) >>= _ = _
  cases value.item config {} <;> rfl

theorem Config.made_of_encode {value : Value} {output : Bytes}
    (keyed : ∀ descriptor ∈ config.descriptors, descriptor.kind = .keyed)
    (encoded : config.encode value = .ok output) (small : output.length < 2 ^ 64) :
    ∃ item, value.item config {} = .ok item ∧ output = item.bytes ∧
      item.Everywhere (Item.Made config.definiteLengths) := by
  rw [Config.encode_eq_wire keyed] at encoded
  obtain ⟨item, made, rfl⟩ := map_eq_ok.mp encoded
  have whole := value.makes config {} item made
  exact ⟨item, made, Item.wire_eq_bytes whole small, whole⟩

-- Output is the bytes of one item, whatever the value and the options: its counts are true and its
-- breaks in place, its heads are of the shortest form, and with definite lengths no length is left open.
-- A word holds the length of whatever is in memory.
theorem Config.encode_eq_bytes {value : Value} {output : Bytes}
    (keyed : ∀ descriptor ∈ config.descriptors, descriptor.kind = .keyed)
    (encoded : config.encode value = .ok output) (small : output.length < 2 ^ 64) :
    ∃ item, value.item config {} = .ok item ∧ output = item.bytes ∧ item.WellFormed ∧ item.Shortest ∧
      (config.definiteLengths = true → item.Definite) := by
  obtain ⟨item, made, same, whole⟩ := Config.made_of_encode keyed encoded small
  refine ⟨item, made, same, ?_, whole.mono fun _ => Item.Made.short, fun definite => ?_⟩
  · exact Item.wellFormed_of_made whole (same ▸ small)
  · rw [definite] at whole
    exact whole.mono fun _ => Item.Made.isSome_head

def Config.points : Config :=
  { definiteLengths := true
    descriptors := [⟨"Point", .keyed, none,
      [⟨"x", some 1, [], [], false, false, some (.integer 0)⟩, ⟨"y", some 2, [], [], false, false, none⟩]⟩] }

theorem Config.encode_points :
    Config.points.encode (.record "Point" [("x", .int .i32 0), ("y", .int .i32 5)]) =
        .ok [0xa1, 0x02, 0x05] ∧
      ∃ item : Item, [0xa1, 0x02, 0x05] = item.bytes ∧ item.WellFormed ∧ item.Shortest ∧
        item.Definite := by
  have encoded : Config.points.encode (.record "Point" [("x", .int .i32 0), ("y", .int .i32 5)]) =
      .ok [0xa1, 0x02, 0x05] := by rfl
  obtain ⟨item, -, same, wellFormed, shortest, definite⟩ :=
    Config.encode_eq_bytes (by simp [Config.points]) encoded (by decide)
  exact ⟨encoded, item, same, wellFormed, shortest, definite rfl⟩

end TypedCbor
