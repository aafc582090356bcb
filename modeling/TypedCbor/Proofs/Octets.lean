import TypedCbor.Proofs.Grammar
import TypedCbor.Proofs.Taking.Typed

namespace TypedCbor

def Value.octets (content : Bytes) : Value := .seq (content.map fun byte => .int .u8 byte.toNat)

-- What is a byte string to the one target as it is to the other.
def Value.asOctets : Value → Value
  | .bytes content => octets content
  | value => value

def Cursor.peekItem : ReadM Major := do
  discard readTags
  peekMajor

inductive Item.IsOctet : Item → UInt8 → Prop where
  | intro {tags : List Head} (same : head.n = byte.toNat) : IsOctet ⟨tags, .unsigned head⟩ byte

-- Octets in one piece, in chunks, and as an array of numbers.
inductive Item.FramesOctets (content : Bytes) : Item → Prop where
  | string {tags : List Head} (same : form.content = content) : FramesOctets content ⟨tags, .bytes form⟩
  | array {tags : List Head} (octets : List.Forall₂ IsOctet items content) :
    FramesOctets content ⟨tags, .array framing items⟩

namespace Decoder

variable {config : Config}

theorem holds_u8_iff (n : Int) : IntKind.u8.holds n = true ↔ 0 ≤ n ∧ n < 256 := by
  have low : IntKind.u8.low = 0 := rfl
  have high : IntKind.u8.high = 256 := rfl
  rw [IntKind.holds, low, high, Bool.and_eq_true, decide_eq_true_iff, decide_eq_true_iff]

theorem readInt_eq_map : readInt config .u8 = (fun byte => Value.int .u8 byte.toNat) <$> readByte config := by
  rw [readInt, readByte, map_bind]
  congr
  funext n
  by_cases fits : 0 ≤ n ∧ n < 256
  · have number : ((UInt8.ofNat n.toNat).toNat : Int) = n := by
      rw [UInt8.toNat_ofNat']
      omega
    rw [if_pos fits, if_pos ((holds_u8_iff n).mpr fits), map_pure, number]
  · rw [if_neg fits, if_neg (mt (holds_u8_iff n).mp fits)]
    rfl

theorem elementRounds_map (f : α → β) (item : DecodeM α) (rounds : Nat) (s : OpenStructure) :
    elementRounds config (f <$> item) rounds s =
      (fun p => (p.1.map f, p.2)) <$> elementRounds config item rounds s := by
  induction rounds generalizing s with
  | zero => rfl
  | succ rounds ih =>
    rw [elementRounds, elementRounds, map_bind]
    congr
    funext p
    rcases p with ⟨_ | index, s⟩
    · rfl
    · simp only [ih, map_bind, bind_map_left, map_pure, List.map_cons]

theorem readElements_map (f : α → β) (item : DecodeM α) (s : OpenStructure) :
    readElements config (f <$> item) s = (fun p => (p.1.map f, p.2)) <$> readElements config item s := by
  simp only [readElements, elementRounds_map, map_bind]

theorem mapM_ofByte (content : Bytes) :
    content.mapM (Ty.ofByte (.int .u8)) = .ok (content.map fun byte => Value.int .u8 byte.toNat) := by
  induction content with
  | nil => rfl
  | cons byte content ih =>
    have small := byte.toNat_lt
    have held := (holds_u8_iff byte.toNat).mpr (by omega)
    rw [List.mapM_cons, ih, Ty.ofByte, if_pos held]
    rfl

theorem peekItem_of_readHeader {decoder after : Decoder} {opening : Header × List UInt64}
    (found : outcome (readHeader config) decoder = .ok (opening, after)) :
    ∃ rest, outcome Cursor.peekItem decoder.rest = .ok (opening.1.major, rest) := by
  rw [readHeader, outcome_bind, outcome_takeTags] at found
  obtain ⟨⟨own, between⟩, taken, found⟩ := bind_eq_ok.mp found
  obtain ⟨⟨tags, rest⟩, tagged, split⟩ := bind_eq_ok.mp taken
  obtain ⟨_, -, same⟩ := map_eq_ok.mp split
  cases same
  obtain ⟨⟨header, _⟩, headed, done⟩ := bind_eq_ok.mp (outcome_bind .. ▸ found)
  obtain ⟨_, read, rfl⟩ := rest_of_cursor headed
  cases done
  obtain ⟨head?, fits, -, -, spelled⟩ := Cursor.opening_of_readHeader read
  refine ⟨rest, ?_⟩
  rw [Cursor.peekItem, outcome_bind, outcome_discard, tagged, ok_map, ok_bind]
  dsimp only at spelled ⊢
  rw [spelled, Cursor.outcome_peekMajor_opening fits]

def bytesBehind (config : Config) (opening : Header × List UInt64) : DecodeM Payload :=
  match opening.1.major with
  | .bytes => cursor (Cursor.readPayload opening.1)
  | .array => (Payload.mk · false) <$> enclosed config .list (readElements config (readByte config)) opening
  | _ => throw (opening.1.unexpected "byte string")

theorem read_octets_eq {decoder : Decoder} (stands : ∀ major rest,
      outcome Cursor.peekItem decoder.rest = .ok (major, rest) → major = .bytes ∨ major = .array) :
    (Ty.seq (.int .u8)).read config decoder = (Value.asOctets <$> Ty.bytes.read config) decoder := by
  have numbers : (Ty.seq (.int .u8)).read config = readHeader config >>= fun opening =>
      Value.seq <$> if opening.1.major = .bytes then do
        let payload ← cursor (Cursor.readPayload opening.1)
        ofExcept (payload.bytes.mapM (Ty.ofByte (.int .u8)))
      else enclosed config .list (readElements config (readInt config .u8)) opening := by
    simp only [Ty.read, readMany, readSequence_eq, map_bind]
  have string : Value.asOctets <$> Ty.bytes.read config = readHeader config >>= fun opening =>
      (Value.octets ∘ Payload.bytes) <$> bytesBehind config opening := by
    simp only [Ty.read, readBytes_eq, map_bind, Functor.map_map]
    rfl
  rw [numbers, string]
  refine ran_bind_congr fun opening after found => ?_
  obtain ⟨rest, next⟩ := peekItem_of_readHeader found
  rcases stands _ _ next with major | major
  · simp only [bytesBehind, major, if_true, mapM_ofByte, map_bind]
    rfl
  · simp only [bytesBehind, major, reduceCtorEq, if_false, enclosed, readInt_eq_map, readElements_map, map_bind,
      bind_map_left, map_pure]
    rfl

theorem byte_of_octet {item : Item} {byte : UInt8} (formed : item.Formed) (octet : item.IsOctet byte) :
    (ItemReader.byte config).on none item = .ok byte := by
  cases octet with
  | @intro head _ tags same =>
    have major : (head.header .unsigned).major = .unsigned := @openingHeader_major (some head) .unsigned formed.head
    have number : head.number.toNat = byte.toNat := by rw [(formed.head head rfl).toNat_number, same]
    have integer : (head.header .unsigned).integer = .ok byte.toNat := by
      rw [Header.integer, major, Head.argument_header, ← number]
    have small := byte.toNat_lt
    have header : (Body.unsigned head).header = head.header .unsigned := rfl
    simp only [ItemReader.on, ItemReader.byte, ItemReader.andThen, ItemReader.ofHeader, ItemReader.behindTags,
      ItemReader.ownTags, Item.body_mk, header, integer, ok_bind]
    rw [if_pos (by omega), Int.toNat_natCast, UInt8.ofNat_toNat]

theorem bytes_of_framed {item : Item} {content : Bytes} (wellFormed : item.WellFormed)
    (frames : item.FramesOctets content) {field : Option Element} {tags own : List UInt64}
    (split : ItemReader.ownTags config field tags = .ok own) :
    ∃ inPlace, ItemReader.bytes config field tags item.body = .ok ⟨content, inPlace⟩ := by
  rw [ItemReader.bytes, ItemReader.behindTags, split, ok_bind]
  cases frames with
  | string same =>
    subst same
    exact ⟨_, rfl⟩
  | @array items framing _ octets =>
    have each : items.mapM ((ItemReader.byte config).on none) = .ok content := by
      have formed (item : Item) (member : item ∈ items) : item.Formed := (wellFormed.child member).formed
      clear wellFormed
      induction octets with
      | nil => rfl
      | cons octet _ ih =>
        obtain ⟨here, others⟩ := List.forall_mem_cons.mp formed
        rw [List.mapM_cons, byte_of_octet here octet, ih others]
        rfl
    refine ⟨false, ?_⟩
    dsimp only [Item.body_mk]
    rw [ItemReader.arrayed_elements config (Body.header_major wellFormed.formed.head), each]
    rfl

theorem outcome_read_octets {decoder : Decoder} (stands : ∀ major rest,
      outcome Cursor.peekItem decoder.rest = .ok (major, rest) → major = .bytes ∨ major = .array) :
    outcome ((Ty.seq (.int .u8)).read config) decoder =
      (fun p => (p.1.asOctets, p.2)) <$> outcome (Ty.bytes.read config) decoder := by
  rw [← outcome_map, outcome, read_octets_eq stands, outcome]

theorem whole_read_octets {input : Bytes} (stands : ∀ major rest,
      outcome Cursor.peekItem input = .ok (major, rest) → major = .bytes ∨ major = .array) :
    whole ((Ty.seq (.int .u8)).read config) input = Value.asOctets <$> whole (Ty.bytes.read config) input := by
  have same := @outcome_read_octets config ⟨input, none, []⟩ stands
  rw [whole_eq, whole_eq, outcome_bind, outcome_bind, same]
  cases outcome (Ty.bytes.read config) ⟨input, none, []⟩ with
  | error e => rfl
  | ok p =>
    simp only [ok_map, ok_bind, outcome_bind]
    cases outcome finish p.2 <;> rfl

end Decoder

theorem Cursor.outcome_peekItem_item {item : Item} (formed : item.Formed) (rest : Bytes) :
    outcome Cursor.peekItem (item.bytes ++ rest) = .ok (item.body.major, bodyBytes item.body ++ rest) := by
  rw [Cursor.peekItem, outcome_bind, outcome_discard, Cursor.outcome_readTags_item formed, ok_map, ok_bind,
    bodyBytes_eq, List.append_assoc]
  exact Cursor.outcome_peekMajor_opening formed.head _

theorem Item.FramesOctets.major {item : Item} {content : Bytes} (frames : item.FramesOctets content) :
    item.body.major = .bytes ∨ item.body.major = .array := by
  cases frames with
  | string => exact .inl rfl
  | array => exact .inr rfl

open Decoder

-- An item that is a byte string or an array is read alike by either target, from wherever and behind whatever field:
-- to the same octets or with the same failure, and up to the same place. However octets are framed, either reads them.
theorem Config.decode_octets (config : Config) :
    (∀ decoder : Decoder,
      (∀ major rest, outcome Cursor.peekItem decoder.rest = .ok (major, rest) → major = .bytes ∨ major = .array) →
        (Ty.seq (.int .u8)).read config decoder = (Value.asOctets <$> Ty.bytes.read config) decoder) ∧
    (∀ input,
      (∀ major rest, outcome Cursor.peekItem input = .ok (major, rest) → major = .bytes ∨ major = .array) →
        config.decode (.seq (.int .u8)) input = Value.asOctets <$> config.decode .bytes input) ∧
    ∀ (content : Bytes) (item : Item), item.WellFormed → item.FramesOctets content →
      (∀ field pending own rest, ItemReader.ownTags config field (pending ++ item.tagNumbers) = .ok own →
        outcome (Ty.bytes.read config) ⟨item.bytes ++ rest, field, pending⟩ =
            .ok (.bytes content, ⟨rest, none, []⟩) ∧
          outcome ((Ty.seq (.int .u8)).read config) ⟨item.bytes ++ rest, field, pending⟩ =
            .ok (.octets content, ⟨rest, none, []⟩)) ∧
      config.decode .bytes item.bytes = .ok (.bytes content) ∧
      config.decode (.seq (.int .u8)) item.bytes = .ok (.octets content) := by
  refine ⟨fun _ => read_octets_eq, fun _ => whole_read_octets, fun content item wellFormed frames => ?_⟩
  have stands (rest : Bytes) (major : Major) (rest' : Bytes)
      (next : outcome Cursor.peekItem (item.bytes ++ rest) = .ok (major, rest')) :
      major = .bytes ∨ major = .array := by
    rw [Cursor.outcome_peekItem_item wellFormed.formed] at next
    cases next
    exact frames.major
  have string (field : Option Element) (pending own : List UInt64) (rest : Bytes)
      (split : ItemReader.ownTags config field (pending ++ item.tagNumbers) = .ok own) :
      outcome (Ty.bytes.read config) ⟨item.bytes ++ rest, field, pending⟩ =
        .ok (.bytes content, ⟨rest, none, []⟩) := by
    obtain ⟨inPlace, told⟩ := bytes_of_framed wellFormed frames split
    rw [Ty.read, outcome_map, followsAt_readBytes wellFormed, told]
    rfl
  have numbers (field : Option Element) (pending own : List UInt64) (rest : Bytes)
      (split : ItemReader.ownTags config field (pending ++ item.tagNumbers) = .ok own) :
      outcome ((Ty.seq (.int .u8)).read config) ⟨item.bytes ++ rest, field, pending⟩ =
        .ok (.octets content, ⟨rest, none, []⟩) := by
    rw [@outcome_read_octets config ⟨item.bytes ++ rest, field, pending⟩ (stands rest),
      string field pending own rest split]
    rfl
  refine ⟨fun field pending own rest split => ⟨string _ _ _ rest split, numbers _ _ _ rest split⟩, ?_, ?_⟩
  · have read := string none [] _ [] rfl
    rw [List.append_nil] at read
    exact whole_of_outcome read rfl
  · have read := numbers none [] _ [] rfl
    rw [List.append_nil] at read
    exact whole_of_outcome read rfl

def Item.chunkedOctets : Item :=
  ⟨[⟨.immediate, 4⟩], .bytes (.chunked [⟨.immediate, [1]⟩, ⟨.one, [2, 3]⟩])⟩

def Item.listedOctets : Item :=
  ⟨[⟨.immediate, 4⟩], .array .delimited
    [⟨[], .unsigned ⟨.immediate, 1⟩⟩, ⟨[⟨.immediate, 5⟩], .unsigned ⟨.two, 2⟩⟩, ⟨[], .unsigned ⟨.immediate, 3⟩⟩]⟩

def Element.samples : Element := { name := "samples", valueTags := [4] }

theorem Config.decode_chunkedOctets :
    (Ty.seq (.int .u8)).read {} ⟨[0x82, 0x01, 0x19, 0x01, 0x00], some .samples, [4]⟩ =
      (Value.asOctets <$> Ty.bytes.read {}) ⟨[0x82, 0x01, 0x19, 0x01, 0x00], some .samples, [4]⟩ ∧
    Config.decode {} (.seq (.int .u8)) [0x82, 0x01, 0x19, 0x01, 0x00] =
      Value.asOctets <$> Config.decode {} .bytes [0x82, 0x01, 0x19, 0x01, 0x00] ∧
    Config.decode {} .bytes [0x82, 0x01, 0x19, 0x01, 0x00] = .error .integerOverflow ∧
    Item.chunkedOctets.bytes = [0xc4, 0x5f, 0x41, 0x01, 0x58, 0x02, 0x02, 0x03, 0xff] ∧
    Item.listedOctets.bytes = [0xc4, 0x9f, 0x01, 0xc5, 0x19, 0x00, 0x02, 0x03, 0xff] ∧
    ∀ item ∈ [Item.chunkedOctets, Item.listedOctets],
      outcome (Ty.bytes.read {}) ⟨item.bytes ++ [0x00], some .samples, []⟩ = .ok (.bytes [1, 2, 3], ⟨[0x00], none, []⟩) ∧
      Config.decode {} .bytes item.bytes = .ok (.bytes [1, 2, 3]) ∧
      Config.decode {} (.seq (.int .u8)) item.bytes = .ok (.seq [.int .u8 1, .int .u8 2, .int .u8 3]) := by
  obtain ⟨here, alike, framed⟩ := Config.decode_octets {}
  have array (major : Major) (rest : Bytes)
      (next : outcome Cursor.peekItem [0x82, 0x01, 0x19, 0x01, 0x00] = .ok (major, rest)) :
      major = .bytes ∨ major = .array := by
    cases next
    exact .inr rfl
  have chunked : Item.chunkedOctets.WellFormed :=
    (Item.formed_of_ordinary (by decide) (by decide) (by decide) (by decide)).wellFormed rfl
  have number (tags : List Head) (fits : ∀ tag ∈ tags, tag.Fits) (head : Head) (fits' : head.Fits) :
      (Item.mk tags (.unsigned head)).WellFormed := by
    have one : ∀ head' ∈ some head, head'.Fits := Opening.ofTag fits'
    have formed : (Item.mk tags (.unsigned head)).Formed :=
      Item.formed_of_ordinary (show Major.unsigned ≠ .simple by decide) fits one (List.forall_mem_nil _)
    exact formed.wellFormed rfl
  have listed : Item.listedOctets.WellFormed := by
    refine .intro (Item.formed_of_ordinary (by decide) (by decide) (by decide) (by decide)) ?_
    simp only [Item.listedOctets, Item.body_mk, Body.children, List.forall_mem_cons]
    exact ⟨number _ (by decide) _ (by decide), number _ (by decide) _ (by decide), number _ (by decide) _ (by decide),
      List.forall_mem_nil _⟩
  refine ⟨here _ array, alike _ array, rfl, rfl, rfl, fun item member => ?_⟩
  rcases List.mem_pair.mp member with rfl | rfl
  · obtain ⟨within, whole⟩ := framed [1, 2, 3] _ chunked (.string rfl)
    exact ⟨(within (some .samples) [] _ _ rfl).1, whole⟩
  · obtain ⟨within, whole⟩ := framed [1, 2, 3] _ listed (.array (.cons ⟨rfl⟩ (.cons ⟨rfl⟩ (.cons ⟨rfl⟩ .nil))))
    exact ⟨(within (some .samples) [] _ _ rfl).1, whole⟩

end TypedCbor
