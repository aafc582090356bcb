import TypedCbor.Proofs.RoundTrip.Items

namespace TypedCbor

namespace ItemReader

variable {target : Config}

theorem yields_sequence_bytes {ofBytes : Bytes → Except Error (List Value)}
    {ofItems : List Item → Except Error (List Value × List Item)} {content : Bytes} {values : List Value}
    (found : ofBytes content = .ok values) :
    Yields target (sequence target ofBytes ofItems) (.ofBytes content) (· = values) := by
  refine yields_behindTags fun own _ => ⟨values, ?_, rfl⟩
  simp only [Item.ofBytes, Item.body_mk, StringForm.content_whole, found]

theorem yields_sequence_items {source : Config} {ofBytes : Bytes → Except Error (List Value)}
    {ofItems : List Item → Except Error (List Value × List Item)} {items : List Item}
    {values : List Value} (readable : (Item.array source items).Readable)
    (found : ofItems items = .ok (values, [])) :
    Yields target (sequence target ofBytes ofItems) (.array source items) (· = values) := by
  refine yields_behindTags fun own _ => ⟨values, ?_, rfl⟩
  have known : (Body.array (source.framing items.length) items).header.major = .array :=
    Body.header_major readable.formed.head
  exact arrayed_ok known rfl (fun _ framed => by cases framed) found

end ItemReader

open ItemReader

variable {source target : Config}

namespace Item

theorem readable_items {items : List Item} (readable : (array source items).Readable) :
    ∀ item ∈ items, item.Readable :=
  fun _ member => readable.child member

theorem readable_entries {entries : List (Item × Item)} (readable : (map source entries).Readable) :
    ∀ entry ∈ entries, entry.1.Readable ∧ entry.2.Readable :=
  fun entry member => ⟨readable.child (mem_flattened.mpr ⟨entry, member, .inl rfl⟩),
    readable.child (mem_flattened.mpr ⟨entry, member, .inr rfl⟩)⟩

end Item

namespace Value

theorem item_of_byte {n : Int} {byte : UInt8} (held : IntKind.u8.holds n = true)
    (found : (Value.int .u8 n).asByte = Option.some byte) :
    n = byte.toNat ∧ (Value.int .u8 n).item source {} = .ok (.ofWord byte.toUInt64) := by
  obtain ⟨least, most⟩ : IntKind.u8.low ≤ n ∧ n < IntKind.u8.high := by
    simpa [IntKind.holds] using held
  simp only [IntKind.low, IntKind.high, IntKind.isSigned, IntKind.width, Bool.false_eq_true,
    if_false] at least most
  cases found
  have number : (UInt8.ofNat n.toNat).toNat = n.toNat := by
    rw [UInt8.toNat_ofNat']
    omega
  refine ⟨by rw [number]; omega, congrArg (fun word => Except.ok (Item.ofWord word)) ?_⟩
  apply UInt64.toNat_inj.mp
  rw [UInt8.toNat_toUInt64, number, UInt64.toNat_ofNat']
  omega

end Value

theorem Ty.holds_byte {record : String → List (Field Ty) → List (String × Value) → Prop}
    {present : Value → Prop} {type : Ty} {value : Value} {byte : UInt8}
    (held : type.Holds record present value) (found : value.asByte = some byte) :
    type.ofByte byte = .ok value ∧ value.item source {} = .ok (.ofWord byte.toUInt64) := by
  induction type using Ty.induction with
  | step type ih =>
    cases held with
    | @int kind n held =>
      cases kind with
      | u8 =>
        obtain ⟨rfl, item⟩ := @Value.item_of_byte source n byte held found
        refine ⟨?_, item⟩
        rw [Ty.ofByte, if_pos held]
      | i8 | i16 | i32 | i64 | i128 | u16 | u32 | u64 | u128 => cases found
    | @delayed type _ held => exact ih (type ()) (by simp [Ty.parts]) held
    | bool | single | double | char | text | textSlice | bytes | bytesSlice | unit | unitStruct | none
      | some | seq | tuple | tupleStruct | newtype | map | record | unitVariant | newtypeVariant
      | tupleVariant | recordVariant | embedded => cases found

theorem values_return {read : ItemReader Value} {values : List Value}
    (returns : ∀ value ∈ values, value.Returns source target read) {items : List Item}
    (found : valueItems source values = .ok items) (readable : ∀ item ∈ items, item.Readable) :
    ∃ decoded, items.mapM (read.on none) = .ok decoded ∧
      Value.canonicalItems decoded = Value.canonicalItems values := by
  induction values generalizing items with
  | nil =>
    cases found
    exact ⟨[], rfl, rfl⟩
  | cons value values ih =>
    obtain ⟨here, others⟩ := List.forall_mem_cons.mp returns
    obtain ⟨item, first, found⟩ := bind_eq_ok.mp found
    obtain ⟨items, rest, same⟩ := bind_eq_ok.mp found
    cases same
    obtain ⟨itemReadable, readable⟩ := List.forall_mem_cons.mp readable
    obtain ⟨a, found, canonical⟩ := (here {} item rfl first itemReadable).on
    obtain ⟨decoded, done, canonicals⟩ := ih others rest readable
    refine ⟨a :: decoded, ?_, ?_⟩
    · rw [List.mapM_cons, found, ok_bind, done]
      rfl
    · rw [Value.canonicalItems, Value.canonicalItems, canonical, canonicals]

theorem collectedItem_cases {record : String → List (Field Ty) → List (String × Value) → Prop}
    {present : Value → Prop} {type : Ty} {values : List Value}
    (each : ∀ value ∈ values, type.Holds record present value) {collected : Bytes} {item : Item}
    (found : collectedItem source values collected = .ok item) :
    (∃ content, item = .ofBytes (collected ++ content) ∧ content.mapM type.ofByte = .ok values) ∨
      ∃ items, valueItems source values = .ok items ∧
        item = .array source (collected.map (fun byte => .ofWord byte.toUInt64) ++ items) := by
  induction values generalizing collected with
  | nil =>
    cases found
    exact .inl ⟨[], by rw [List.append_nil], rfl⟩
  | cons value values ih =>
    obtain ⟨here, others⟩ := List.forall_mem_cons.mp each
    rw [collectedItem] at found
    cases plain : value.asByte with
    | none =>
      rw [plain] at found
      obtain ⟨item, first, found⟩ := bind_eq_ok.mp found
      obtain ⟨items, rest, same⟩ := bind_eq_ok.mp found
      cases same
      refine .inr ⟨item :: items, ?_, rfl⟩
      rw [valueItems, first, ok_bind, rest]
      rfl
    | some byte =>
      rw [plain] at found
      obtain ⟨ofByte, first⟩ := @Ty.holds_byte source _ _ type value byte here plain
      rcases ih others found with ⟨content, rfl, rest⟩ | ⟨items, rest, rfl⟩
      · refine .inl ⟨byte :: content, by rw [List.append_assoc]; rfl, ?_⟩
        rw [List.mapM_cons, ofByte, ok_bind, rest]
        rfl
      · refine .inr ⟨.ofWord byte.toUInt64 :: items, ?_, ?_⟩
        · rw [valueItems, first, ok_bind, rest]
          rfl
        · rw [List.map_append, List.append_assoc]
          rfl

theorem seq_returns {record : String → List (Field Ty) → List (String × Value) → Prop}
    {present : Value → Prop} {type : Ty} {values : List Value}
    (returns : ∀ value ∈ values, value.Returns source target (type.ofItem target))
    (each : ∀ value ∈ values, type.Holds record present value) :
    (Value.seq values).Returns source target ((Ty.seq type).ofItem target) := by
  intro markers item _ found readable
  have ofItems {items : List Item} (items_found : valueItems source values = .ok items)
      (readable : (Item.array source items).Readable) :
      Yields target ((Ty.seq type).ofItem target) (.array source items) fun decoded =>
        decoded.canonical = (Value.seq values).canonical := by
    obtain ⟨decoded, read, same⟩ := values_return returns items_found (Item.readable_items readable)
    have taken : elements (type.ofItem target) items = .ok (decoded, []) := by
      rw [elements, read]
      rfl
    refine (yields_sequence_items readable taken).map fun values' same' => ?_
    rw [same', Value.canonical, Value.canonical, same]
  rw [Value.item] at found
  split at found
  · rcases collectedItem_cases each found with ⟨content, rfl, read⟩ | ⟨items, made, rfl⟩
    · exact (yields_sequence_bytes read).map fun values' same => by rw [same]
    · exact ofItems made readable
  · obtain ⟨items, made, rfl⟩ := map_eq_ok.mp found
    exact ofItems made readable

theorem fill_returns {types : List Ty} {values : List Value}
    (returns : List.Forall₂ (fun type value => value.Returns source target (type.ofItem target)) types values)
    {items : List Item} (found : valueItems source values = .ok items)
    (readable : ∀ item ∈ items, item.Readable) (expected : String) (filled : Nat) :
    ∃ decoded, fill expected filled (itemSlots target types) items = .ok (decoded, []) ∧
      Value.canonicalItems decoded = Value.canonicalItems values := by
  induction returns generalizing items filled with
  | nil =>
    cases found
    exact ⟨[], rfl, rfl⟩
  | cons here others ih =>
    obtain ⟨item, first, found⟩ := bind_eq_ok.mp found
    obtain ⟨items, rest, same⟩ := bind_eq_ok.mp found
    cases same
    obtain ⟨itemReadable, readable⟩ := List.forall_mem_cons.mp readable
    obtain ⟨a, read, canonical⟩ := (here {} item rfl first itemReadable).on
    obtain ⟨decoded, done, canonicals⟩ := ih rest readable (filled + 1)
    refine ⟨a :: decoded, ?_, ?_⟩
    · rw [itemSlots, fill, read, ok_bind, done]
      rfl
    · rw [Value.canonicalItems, Value.canonicalItems, canonical, canonicals]

theorem tuple_returns {types : List Ty} {values : List Value}
    (returns : List.Forall₂ (fun type value => value.Returns source target (type.ofItem target)) types values)
    (expected : String) : (Value.tuple values).Returns source target
      ((tuple target expected (itemSlots target types)).andThen (.ok ∘ .tuple)) := by
  intro markers item _ found readable
  obtain ⟨items, made, rfl⟩ := map_eq_ok.mp found
  obtain ⟨decoded, read, same⟩ := fill_returns returns made (Item.readable_items readable) expected 0
  refine (yields_sequence_items readable read).map fun values' same' => ?_
  rw [same', Value.canonical, Value.canonical, same]

theorem entries_return {key value : ItemReader Value} {pairs : List (Value × Value)}
    (keys : ∀ entry ∈ pairs, entry.1.Returns source target key)
    (values : ∀ entry ∈ pairs, entry.2.Returns source target value) {items : List (Item × Item)}
    (found : entryItems source pairs = .ok items)
    (readable : ∀ entry ∈ items, entry.1.Readable ∧ entry.2.Readable) :
    ∃ decoded, entries key value items = .ok decoded ∧
      Value.canonicalEntries decoded = Value.canonicalEntries pairs := by
  induction pairs generalizing items with
  | nil =>
    cases found
    exact ⟨[], rfl, rfl⟩
  | cons pair pairs ih =>
    rcases pair with ⟨k, v⟩
    obtain ⟨keyHere, keys⟩ := List.forall_mem_cons.mp keys
    obtain ⟨valueHere, values⟩ := List.forall_mem_cons.mp values
    obtain ⟨keyItem, keyFound, found⟩ := bind_eq_ok.mp found
    obtain ⟨valueItem, valueFound, found⟩ := bind_eq_ok.mp found
    obtain ⟨items, rest, same⟩ := bind_eq_ok.mp found
    cases same
    obtain ⟨⟨keyReadable, valueReadable⟩, readable⟩ := List.forall_mem_cons.mp readable
    obtain ⟨a, keyRead, keyCanonical⟩ := (keyHere {} keyItem rfl keyFound keyReadable).on
    obtain ⟨b, valueRead, valueCanonical⟩ := (valueHere {} valueItem rfl valueFound valueReadable).on
    obtain ⟨decoded, done, canonicals⟩ := ih keys values rest readable
    refine ⟨(a, b) :: decoded, ?_, ?_⟩
    · rw [entries_cons, keyRead, ok_bind, valueRead, ok_bind, done]
      rfl
    · rw [Value.canonicalEntries, Value.canonicalEntries, keyCanonical, valueCanonical, canonicals]

theorem map_returns {key value : Ty} {pairs : List (Value × Value)}
    (keys : ∀ entry ∈ pairs, entry.1.Returns source target (key.ofItem target))
    (values : ∀ entry ∈ pairs, entry.2.Returns source target (value.ofItem target)) :
    (Value.map pairs).Returns source target ((Ty.map key value).ofItem target) := by
  intro markers item _ found readable
  obtain ⟨items, made, rfl⟩ := map_eq_ok.mp found
  obtain ⟨decoded, read, same⟩ := entries_return keys values made (Item.readable_entries readable)
  have known : (Body.map (source.framing items.length) items).header.major = .map :=
    Body.header_major readable.formed.head
  have yields : Yields target (map target (key.ofItem target) (value.ofItem target))
      (.map source items) (· = decoded) :=
    yields_behindTags fun own _ => ⟨decoded, by rw [Item.map, Item.body_mk, mapped_eq known rfl rfl, read], rfl⟩
  refine yields.map fun pairs' same' => ?_
  rw [same', Value.canonical, Value.canonical, same]

theorem contentOf_itemVariants {variants : List (Variant Ty)} {name : String} {content : Content Ty}
    (parent : String) (found : variants.find? (·.name == name) = some ⟨name, content⟩) :
    Decoder.contentOf (itemVariants target parent variants) name =
      .ok (itemContent target parent name content) := by
  have listed : (itemVariants target parent variants).find? (·.name == name) =
      some ⟨name, itemContent target parent name content⟩ := by
    induction variants with
    | nil => cases found
    | cons variant variants ih =>
      rw [List.find?_cons] at found
      rw [itemVariants, List.find?_cons]
      dsimp only
      by_cases here : (variant.name == name) = true
      · rw [here] at found ⊢
        cases found
        rfl
      · rw [Bool.not_eq_true] at here
        rw [here] at found ⊢
        exact ih found
  rw [Decoder.contentOf, listed]

theorem unitVariant_returns {readers : List (VariantReader (ItemReader Value))} {name : String}
    (known : Decoder.contentOf readers name = .ok .unit) :
    (Value.unitVariant name).Returns source target (ItemReader.variant target readers) := by
  intro markers item _ found _
  cases found
  have bare : Yields target (bareVariant target readers) (.ofText name)
      fun decoded => decoded.canonical = (Value.unitVariant name).canonical := by
    refine (yields_text name).andThen fun payload same => ⟨.unitVariant name, ?_, rfl⟩
    rw [same]
    dsimp only
    rw [known]
    rfl
  exact bare

theorem variant_returns {readers : List (VariantReader (ItemReader Value))} {name form : String}
    {read : ItemReader Value} (known : Decoder.contentOf readers name = .ok (.content form read))
    {content : Value} (returns : content.Returns source target read) :
    (Value.variant name content).Returns source target (ItemReader.variant target readers) := by
  intro markers item _ found readable
  obtain ⟨inner, made, rfl⟩ := map_eq_ok.mp found
  have innerReadable : inner.Readable := Item.readable_items readable inner (by simp)
  obtain ⟨decoded, done, same⟩ := (returns {} inner rfl made innerReadable).on
  obtain ⟨payload, named, rfl⟩ := (@yields_text target name).on
  have pair : variantPair target readers [.ofText name, inner] = .ok (.variant name decoded, []) := by
    rw [variantPair, named, ok_bind]
    dsimp only
    rw [known, ok_bind]
    dsimp only
    rw [done]
    rfl
  have major : (Body.array (source.framing 2) [Item.ofText name, inner]).header.major = .array :=
    Body.header_major readable.formed.head
  have yields : Yields target (behindTags target (arrayed target .polymorphic (variantPair target readers)))
      (.array source [.ofText name, inner]) (· = .variant name decoded) := by
    refine yields_behindTags fun own _ => ⟨_, ?_, rfl⟩
    exact arrayed_ok major rfl (fun _ framed => by cases framed) pair
  intro field tags own ordinary taken behind
  obtain ⟨_, read, rfl⟩ := yields field tags own ordinary taken behind
  exact ⟨_, read, congrArg (Value.variant name) same⟩

end TypedCbor
