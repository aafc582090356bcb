import TypedCbor.Proofs.ItemReader.Blind
import TypedCbor.Proofs.ItemReader.Typed

namespace TypedCbor

namespace Item

def pair (tags : List UInt64) (framing : Framing) (key value : Item) : Item :=
  ⟨tags.map fun tag => .shortest tag.toNat, .map framing [(key, value)]⟩

theorem tagNumbers_pair (tags : List UInt64) (framing : Framing) (key value : Item) :
    (pair tags framing key value).tagNumbers = tags := by
  rw [tagNumbers, pair, tags_mk, Head.map_number_shortest]

def small (n : Nat) : Item := ⟨[], .unsigned ⟨.immediate, n⟩⟩

end Item

namespace Decoder

variable {config : Config} {name expected : String} {tags : List UInt64} {shape : Shape}

def keyOnly : List (FieldReader (DecodeM Value)) := [⟨"key", readIgnored, none, false⟩]

theorem outcome_readRecord_pair (shaped : config.shape name .keyed ["key"] = shape)
    (framed : shape.arrayTags = some tags) (data : shape.kind = .map) {framing : Framing}
    {key value : Item} (readable : (Item.pair tags framing key value).Readable) (rest : Bytes) :
    outcome (readRecord config name expected keyOnly)
        ⟨(Item.pair tags framing key value).bytes ++ rest, none, []⟩ =
      (fun p => (.record name [("key", .visited .ignored .unit)], p.2)) <$>
        outcome (endStructure (standing shape framing 2 1)) (within framing [value] rest) := by
  have formed := readable.formed
  have first : key.Readable := readable.child (by simp [Item.pair, Body.children])
  have unkeyed : shape.hasKeys = false := by simp [Shape.hasKeys, data]
  have array : shape.isArrayFramed = true := by simp [Shape.isArrayFramed, framed]
  have map : shape.header.1 = .map := by simp [Shape.header, data]
  have major : (Item.pair tags framing key value).body.header.major = .map :=
    Body.header_major formed.head
  have length : (Item.pair tags framing key value).body.header.length = framing.announced 1 :=
    Framing.length_openingHeader formed.head
  have suffix : tags.isSuffixOf tags = true := List.isSuffixOf_iff_suffix.mpr (List.suffix_refl tags)
  have opens : opened config shape (Item.pair tags framing key value).body.header tags =
      .ok (standing shape framing 2 2) := by
    simp [opened, framed, suffix, major, map, length, standing, Shape.units, data]
  have announces := @outcome_nextElement_cons config shape framing 2 unkeyed key [value] first.formed
    (fun _ => rfl) Nat.one_lt_two rest
  have skips : outcome readIgnored (facing (shape.atPosition 0) key framing [value] rest) =
      .ok (.visited .ignored .unit, within framing [value] rest) :=
    (follows_readIgnored key first).facing (shape.atPosition 0) framing [value] rest
  simp only [List.length_cons, List.length_nil, Nat.zero_add, Nat.reduceAdd, Nat.sub_self] at announces
  simp only [readRecord, keyOnly, beginStructure, List.map_cons, List.map_nil, shaped, outcome_bind,
    outcome_readHeader formed, ItemReader.ownTags, List.nil_append, Item.tagNumbers_pair, ok_map,
    ok_bind, outcome_ofExcept, opens, array, if_true, takeFields]
  have inside : (⟨(Item.pair tags framing key value).body.content ++ rest, none, []⟩ : Decoder) =
      within framing [key, value] rest := by
    simp [within, Item.pair, Body.content, entriesBytes, itemsBytes]
  rw [inside, announces, ok_bind]
  simp only [outcome_bind, skips, ok_bind, outcome_pure]
  cases outcome (endStructure (standing shape framing 2 1)) (within framing [value] rest) <;> rfl

end Decoder

def Item.halfPair (tags : List UInt64) (framing : Framing) : Item :=
  ⟨[], .array .delimited [.pair tags framing (.small 0) (.small 0)]⟩

theorem Head.length_bytes_le (head : Head) (major : Major) : (head.bytes major).length ≤ 9 := by
  rcases head with ⟨width, n⟩
  cases width <;> simp [Head.bytes, Bytes.length_bigEndian, Width.size]

theorem length_tagBytes_le (tags : List Head) : (tagBytes tags).length ≤ 9 * tags.length := by
  induction tags with
  | nil => exact Nat.le_refl 0
  | cons tag tags ih =>
    have here := tag.length_bytes_le .tag
    simp only [tagBytes, List.flatMap_cons, List.length_append, List.length_cons] at ih ⊢
    omega

theorem Item.wellFormed_small {n : Nat} (fits : n < 24) : (Item.small n).WellFormed := by
  refine .intro ⟨?_, ?_, ?_, ?_⟩ ?_
  · intro tag member
    cases member
  · intro head member
    cases Option.mem_some.mp member
    exact fits
  · intro chunk member
    cases member
  · intro n same
    cases same
  · intro child member
    cases member

theorem Item.wellFormed_pair (tags : List UInt64) {framing : Framing}
    (fits : ∀ head ∈ framing.head? 1, head.Fits) {key value : Item} (first : key.WellFormed)
    (second : value.WellFormed) : (Item.pair tags framing key value).WellFormed := by
  refine .intro ⟨?_, fits, ?_, ?_⟩ ?_
  · intro head member
    obtain ⟨tag, -, rfl⟩ := List.mem_map.mp member
    exact Head.fits_shortest tag.toNat_lt
  · intro chunk member
    cases member
  · intro n same
    cases same
  · intro child member
    rcases List.mem_pair.mp member with rfl | rfl
    · exact first
    · exact second

theorem Item.readable_halfPair {tags : List UInt64} (short : tags.length < 2 ^ 60) {framing : Framing}
    (fits : ∀ head ∈ framing.head? 1, head.Fits) : (Item.halfPair tags framing).Readable := by
  have number := Item.wellFormed_small (show 0 < 24 by decide)
  refine ⟨.intro ⟨?_, ?_, ?_, ?_⟩ ?_, ?_⟩
  · intro tag member
    cases member
  · intro head member
    cases member
  · intro chunk member
    cases member
  · intro n same
    cases same
  · intro child member
    cases List.mem_singleton.mp member
    exact Item.wellFormed_pair tags fits number number
  · have bound := length_tagBytes_le (tags.map fun tag => .shortest tag.toNat)
    rw [List.length_map] at bound
    have opening : (openingBytes .map (framing.head? 1)).length ≤ 9 := by
      cases framing.head? 1 with
      | none => decide
      | some head => exact head.length_bytes_le .map
    have closing : framing.closing.length ≤ 1 := by
      cases framing with
      | counted => exact Nat.zero_le 1
      | delimited => exact Nat.le_refl 1
    have number : (Item.small 0).bytes.length = 1 := rfl
    have start : (openingBytes .array (Framing.delimited.head? 1)).length = 1 := rfl
    have last : Framing.delimited.closing.length = 1 := rfl
    simp only [Item.halfPair, Item.pair, Item.bytes, bodyBytes, itemsBytes, entriesBytes,
      List.length_append, List.length_cons, List.length_nil, tagBytes, List.flatMap_nil, Nat.zero_add] at *
    omega

def Ty.halfPair (name : String) : Ty := .tuple [.record name [⟨"key", .ignored, none⟩], .int .u8]

theorem Ty.anyFree_halfPair (name : String) : (Ty.halfPair name).AnyFree := by
  have ignored : Ty.ignored.AnyFree := .intro (by simp) (by simp [parts])
  have number : (Ty.int .u8).AnyFree := .intro (by simp) (by simp [parts])
  have record : (Ty.record name [⟨"key", .ignored, none⟩]).AnyFree :=
    .intro (by simp) (by simpa [parts] using ignored)
  exact .intro (by simp [halfPair]) (by simpa [parts, halfPair] using ⟨record, number⟩)

namespace Decoder

variable {config : Config} {name expected : String} {tags : List UInt64} {shape : Shape}

theorem outcome_readTuple_halfPair (shaped : config.shape name .keyed ["key"] = shape)
    (framed : shape.arrayTags = some tags) (data : shape.kind = .map) {framing : Framing}
    (readable : (Item.halfPair tags framing).Readable) {slot : Slot (DecodeM Value)}
    (called : String) (ofByte : UInt8 → Except Error Value) :
    outcome (readTuple config expected [⟨readRecord config name called keyOnly, ofByte⟩, slot])
        ⟨(Item.halfPair tags framing).bytes, none, []⟩ =
      outcome (endStructure (standing shape framing 2 1)) (within framing [.small 0] Wire.closing) >>=
        fun p => outcome (do
          let (values, s) ← fillFromElements config expected 1 [slot] (standing .list .delimited 2 1)
          endStructure s
          return .record name [("key", .visited .ignored .unit)] :: values) p.2 := by
  have formed := readable.formed
  have inner : (Item.pair tags framing (.small 0) (.small 0)).Readable :=
    readable.child (by simp [Item.halfPair, Body.children])
  have major : (Item.halfPair tags framing).body.header.major = .array := Body.header_major formed.head
  have length : (Item.halfPair tags framing).body.header.length = none := rfl
  have opens : opened config .list (Item.halfPair tags framing).body.header [] =
      .ok (standing .list .delimited 1 1) := by
    simp only [opened, Shape.list, Shape.arrayTags, major, length]
    rfl
  have announces := @outcome_nextElement_cons config .list .delimited 1 rfl _ [] inner.formed
    (absurd · (by decide)) Nat.one_pos []
  have opening := @outcome_readHeader config _ formed none [] []
  rw [List.append_nil] at opening
  have inside : (⟨(Item.halfPair tags framing).body.content ++ [], none, []⟩ : Decoder) =
      within .delimited [.pair tags framing (.small 0) (.small 0)] [] := by
    simp [within, Item.halfPair, Body.content]
  rw [readTuple, readSequence_eq, outcome_bind, opening]
  simp only [ItemReader.ownTags, ok_map, ok_bind, major, reduceCtorEq, if_false, enclosed, outcome_bind,
    outcome_ofExcept, List.nil_append]
  rw [show (Item.halfPair tags framing).tagNumbers = [] from rfl, opens, ok_map, ok_bind, inside,
    fillFromElements, outcome_bind]
  rw [List.length_singleton] at announces
  rw [announces, ok_bind]
  simp only [outcome_bind]
  change ((outcome (readRecord config name called keyOnly)
    ⟨(Item.pair tags framing (.small 0) (.small 0)).bytes ++ Wire.closing, none, []⟩ >>= _) >>= _) = _
  rw [outcome_readRecord_pair shaped framed data inner]
  cases outcome (endStructure (standing shape framing 2 1)) (within framing [.small 0] Wire.closing) with
  | error e => rfl
  | ok p =>
    simp only [ok_map, ok_bind]
    change (outcome (fillFromElements config expected 1 [slot] (standing .list .delimited 2 1)) p.2 >>= _)
      >>= _ = _
    cases outcome (fillFromElements config expected 1 [slot] (standing .list .delimited 2 1)) p.2 <;> rfl

end Decoder

namespace Config

variable {config : Config} {name : String} {tags : List UInt64}

theorem read_halfPair : (Ty.halfPair name).read config =
    Value.tuple <$> Decoder.readTuple config "a tuple of size 2"
      [⟨Decoder.readRecord config name ("struct " ++ name) Decoder.keyOnly,
        Ty.ofByte (.record name [⟨"key", .ignored, none⟩])⟩,
        ⟨Decoder.readInt config .u8, Ty.ofByte (.int .u8)⟩] := by
  simp only [Ty.halfPair, Ty.read, slots, fieldReaders, List.length_cons, List.length_nil]
  rfl

theorem decode_halfPair_counted (framed : (config.shape name .keyed ["key"]).arrayTags = some tags)
    (data : (config.shape name .keyed ["key"]).kind = .map)
    (readable : (Item.halfPair tags (.counted .immediate)).Readable) :
    config.decode (.halfPair name) (Item.halfPair tags (.counted .immediate)).bytes =
      .ok (.tuple [.record name [("key", .visited .ignored .unit)], .int .u8 0]) := by
  have counted : standing (config.shape name .keyed ["key"]) (.counted .immediate) 2 1 =
      ⟨config.shape name .keyed ["key"], some 0, 1⟩ := by
    simp [standing, Shape.units, data, Framing.announced]
  rw [decode, Decoder.whole_eq, read_halfPair]
  simp only [outcome_bind, outcome_map, Decoder.outcome_readTuple_halfPair rfl framed data readable,
    counted]
  rfl

theorem decode_halfPair_delimited (framed : (config.shape name .keyed ["key"]).arrayTags = some tags)
    (data : (config.shape name .keyed ["key"]).kind = .map)
    (readable : (Item.halfPair tags .delimited).Readable) :
    config.decode (.halfPair name) (Item.halfPair tags .delimited).bytes =
      .error (.unexpectedMajor "break" .unsigned) := by
  rw [decode, Decoder.whole_eq, read_halfPair]
  simp only [outcome_bind, outcome_map, Decoder.outcome_readTuple_halfPair rfl framed data readable]
  rfl

end Config

-- Framing decides nothing under a configuration if every document is decoded to the same value in all
-- its framings, or refused in all of them.
def Config.IgnoresFraming (config : Config) : Prop :=
  ∀ type : Ty, type.AnyFree → ∀ item other : Item, item.Readable → other.Readable →
    item.Reframed other → ∀ value,
      config.decode type item.bytes = .ok value ↔ config.decode type other.bytes = .ok value

theorem Config.Regular.ignoresFraming {config : Config} (regular : config.Regular)
    (plain : config.WithoutObjects) : config.IgnoresFraming := by
  intro type free item other readable readable' same value
  have blind {item : Item} (wellFormed : item.WellFormed) :=
    (free.blind plain).on ordinary_none wellFormed
  rw [decode_bytes regular type readable, decode_bytes regular type readable',
    ← toOption_eq_some, ← toOption_eq_some, blind readable.wellFormed, blind readable'.wellFormed, same]

-- Framing decides nothing exactly under the configurations that have no record be a data map and an
-- array at once. A list in memory has no more places than the tags are bounded by here.
theorem Config.ignoresFraming_iff {config : Config} (plain : config.WithoutObjects)
    (held : ∀ descriptor ∈ config.descriptors, ∀ tags ∈ descriptor.arrayTags, tags.length < 2 ^ 60) :
    config.IgnoresFraming ↔ config.Regular := by
  constructor
  · intro ignores name fields framed data
    obtain ⟨descriptor, present, shaped⟩ : ∃ descriptor ∈ config.descriptors,
        ∀ fields, config.shape name .keyed fields = .described descriptor := by
      unfold Config.shape at framed ⊢
      cases found : config.descriptors.find? (·.name == name) with
      | none =>
        rw [found] at framed
        cases framed
      | some descriptor => exact ⟨descriptor, List.mem_of_find?_eq_some found, fun _ => rfl⟩
    rw [shaped] at framed data
    obtain ⟨tags, arrayTags⟩ := Option.isSome_iff_exists.mp framed
    have short := held descriptor present tags arrayTags
    have counted : (Item.halfPair tags (.counted .immediate)).Readable := by
      refine Item.readable_halfPair short fun head member => ?_
      cases Option.mem_some.mp member
      exact (by decide : 1 < 24)
    have delimited : (Item.halfPair tags .delimited).Readable :=
      Item.readable_halfPair short fun head member => nomatch member
    have described : (config.shape name .keyed ["key"]).arrayTags = some tags := by
      rw [shaped]
      exact arrayTags
    have accepted := decode_halfPair_counted described (by rw [shaped]; exact data) counted
    have refused := decode_halfPair_delimited described (by rw [shaped]; exact data) delimited
    rw [(ignores _ (Ty.anyFree_halfPair name) _ _ counted delimited rfl _).mp accepted] at refused
    cases refused
  · exact fun regular => regular.ignoresFraming plain

def Config.pairsAsArrays : Config := { descriptors := [⟨"Pair", .map, some [], []⟩] }

theorem Config.pairsAsArrays_sees_framing :
    pairsAsArrays.WithoutObjects ∧ ¬ pairsAsArrays.IgnoresFraming := by
  have plain : pairsAsArrays.WithoutObjects := by simp [WithoutObjects, pairsAsArrays]
  refine ⟨plain, fun ignores => ?_⟩
  have regular := (ignoresFraming_iff plain (by simp [pairsAsArrays])).mp ignores
  exact regular "Pair" [] rfl rfl

theorem Config.decode_pairsAsArrays :
    pairsAsArrays.decode (.tuple [.record "Pair" [⟨"key", .int .u8, none⟩], .int .u8])
        [0x9f, 0xa1, 0x01, 0x05, 0xff] =
      .ok (.tuple [.record "Pair" [("key", .int .u8 1)], .int .u8 5]) ∧
    pairsAsArrays.decode (.tuple [.record "Pair" [⟨"key", .int .u8, none⟩], .int .u8])
        [0x9f, 0xbf, 0x01, 0x05, 0xff, 0xff] =
      .error (.unexpectedMajor "break" .unsigned) := by
  constructor <;> rfl

end TypedCbor
