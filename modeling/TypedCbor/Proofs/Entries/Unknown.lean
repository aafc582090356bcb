import TypedCbor.Proofs.Entries.Found
import TypedCbor.Proofs.Framing
import TypedCbor.Proofs.Value

namespace TypedCbor

open Decoder

structure Entry.Unknown (shape : Shape) (entry : Entry) : Prop where
  formed : entry.key.Formed
  key : ∃ name, entry.key.body.key = .ok name ∧ name.resolve shape = none
  value : ∃ item : Item, item.WellFormed ∧ entry.value = item.bytes

inductive Inserted : List Entry → List Entry → List Entry → Prop where
  | done : Inserted [] [] []
  | kept {entry : Entry} {entries extras entries' : List Entry} (others : Inserted entries extras entries') :
    Inserted (entry :: entries) extras (entry :: entries')
  | added {extra : Entry} {entries extras entries' : List Entry} (others : Inserted entries extras entries') :
    Inserted entries (extra :: extras) (extra :: entries')

-- A listing with unknown entries put in, its count adjusted.
structure Listing.Extends (shape : Shape) (listing : Listing) (extras : List Entry) (listing' : Listing) : Prop where
  tags : listing'.tags = listing.tags
  framing : extras = [] → listing'.framing = listing.framing
  head : ∀ head ∈ listing'.head?, head.Fits
  unknown : ∀ extra ∈ extras, extra.Unknown shape
  inserted : Inserted listing.entries extras listing'.entries

theorem Inserted.mem {entries extras entries' : List Entry} (inserted : Inserted entries extras entries')
    {extra : Entry} (member : extra ∈ extras) : extra ∈ entries' := by
  induction inserted with
  | done => exact member
  | kept _ ih => exact List.mem_cons_of_mem _ (ih member)
  | added _ ih =>
    rcases List.mem_cons.mp member with rfl | others
    · exact List.mem_cons_self
    · exact List.mem_cons_of_mem _ (ih others)

theorem Inserted.eq_of_nil {entries entries' : List Entry} (inserted : Inserted entries [] entries') :
    entries' = entries := by
  generalize nothing : ([] : List Entry) = extras at inserted
  induction inserted with
  | done => rfl
  | kept _ ih => rw [ih nothing]
  | added => cases nothing

theorem Inserted.first {extra : Entry} {entries extras entries' : List Entry}
    (inserted : Inserted entries (extra :: extras) entries') :
    ∃ before after others, entries = before ++ after ∧ entries' = before ++ extra :: others := by
  generalize some : extra :: extras = all at inserted
  induction inserted with
  | done => cases some
  | @kept entry _ _ _ _ ih =>
    obtain ⟨before, after, others, rfl, rfl⟩ := ih some
    exact ⟨entry :: before, after, others, rfl, rfl⟩
  | @added _ entries _ others _ _ =>
    cases some
    exact ⟨[], entries, others, rfl, rfl⟩

section
variable {strict lenient : Config} (relaxes : lenient.Relaxes strict) {shape : Shape} {fields : List (Field Ty)}
include relaxes

theorem Entry.Tells.relaxed {entry : Entry} {told : Option (String × Value)}
    (tells : entry.Tells strict shape fields told) : entry.Tells lenient shape fields told := by
  have passes {found : Option Nat} (announced : ItemReader.announced strict shape entry.key = .ok found) :
      ItemReader.announced lenient shape entry.key = .ok found := by
    cases found with
    | none =>
      obtain ⟨name, named, resolved, ignores⟩ := ItemReader.announced_eq_none.mp announced
      exact ItemReader.announced_eq_none.mpr ⟨name, named, resolved, relaxes.unknownKeys ignores⟩
    | some index =>
      obtain ⟨name, named, resolved, accepts⟩ := ItemReader.announced_eq_some.mp announced
      exact ItemReader.announced_eq_some.mpr ⟨name, named, resolved, acceptsKeyTags_relaxed relaxes accepts⟩
  cases tells with
  | @field index field value formed announced known read =>
    exact .field formed (passes announced) known ((field.type.delimits.takes relaxes).twin read)
  | passed formed announced unknown skipped => exact .passed formed (passes announced) unknown skipped

theorem Listing.Reads.relaxed {listing : Listing} {input rest : Bytes}
    (reads : listing.Reads strict shape fields input rest) : listing.Reads lenient shape fields input rest := by
  obtain ⟨told, tells⟩ := reads.told
  exact ⟨reads.spelled, reads.tags, reads.head, told, tells.imp fun _ _ => Entry.Tells.relaxed relaxes⟩

end

section
variable {config : Config} {shape : Shape} {fields : List (Field Ty)}

theorem Entry.Unknown.tells {entry : Entry} (unknown : entry.Unknown shape)
    (ignores : config.ignoreUnknownKeys = true) (small : entry.value.length < 2 ^ 64) :
    entry.Tells config shape fields none := by
  obtain ⟨name, named, resolved⟩ := unknown.key
  obtain ⟨item, wellFormed, same⟩ := unknown.value
  refine .passed unknown.formed (ItemReader.announced_eq_none.mpr ⟨name, named, resolved, ignores⟩) (by simp) ?_
  have skipped := Cursor.outcome_skipItem wellFormed (same ▸ small) []
  rwa [List.append_nil, ← same] at skipped

theorem Inserted.tells {entries extras entries' : List Entry} (inserted : Inserted entries extras entries')
    (passed : ∀ extra ∈ extras, extra.Tells config shape fields none) {told : List (Option (String × Value))}
    (tells : List.Forall₂ (Entry.Tells config shape fields) entries told) :
    ∃ told', List.Forall₂ (Entry.Tells config shape fields) entries' told' ∧
      ∀ seen, addAll seen told' = addAll seen told := by
  induction inserted generalizing told with
  | done => exact ⟨told, tells, fun _ => rfl⟩
  | kept _ ih =>
    cases tells with
    | @cons _ one _ told here others =>
      obtain ⟨told', tells', same⟩ := ih passed others
      refine ⟨one :: told', .cons here tells', fun seen => ?_⟩
      rw [addAll, addAll, List.foldlM_cons, List.foldlM_cons]
      cases addTold seen one with
      | error e => rfl
      | ok seen => exact same seen
  | added _ ih =>
    obtain ⟨here, passed⟩ := List.forall_mem_cons.mp passed
    obtain ⟨told', tells', same⟩ := ih passed tells
    exact ⟨none :: told', .cons here tells', same⟩

theorem Entry.length_value_le {entry : Entry} {listing : Listing} (member : entry ∈ listing.entries) :
    entry.value.length ≤ listing.bytes.length := by
  obtain ⟨before, after, split⟩ := List.append_of_mem member
  simp only [Listing.bytes, Listing.content, split, List.flatMap_append, List.flatMap_cons, Entry.bytes,
    List.length_append]
  omega

end

theorem addAll_take {told : List (Option (String × Value))} {seen seen' : List (String × Value)}
    (added : addAll seen told = .ok seen') (count : Nat) :
    ∃ between, addAll seen (told.take count) = .ok between := by
  rw [addAll, ← told.take_append_drop count, List.foldlM_append] at added
  obtain ⟨between, first, -⟩ := bind_eq_ok.mp added
  exact ⟨between, first⟩

theorem Decoder.outcome_placeFields_refused {config : Config} {fields : List (Field Ty)} {s : OpenStructure}
    (keyed : s.shape.hasKeys = true) {entries : List Entry} {told : List (Option (String × Value))}
    (tells : List.Forall₂ (Entry.Tells config s.shape fields) entries told)
    (fewer : ∀ count ∈ s.remaining, entries.length < count) {seen : List (String × Value)}
    (added : addAll [] told = .ok seen) {key : Item} (formed : key.Formed) {e : Error}
    (refused : ItemReader.announced config s.shape key = .error e) (rest : Bytes) :
    outcome (placeFields config (fieldReaders config fields) [] s)
      ⟨entries.flatMap Entry.bytes ++ (key.bytes ++ rest), none, []⟩ = .error e := by
  have more : (s.past entries.length).remaining ≠ some 0 := by
    intro none
    obtain ⟨all, counted, left⟩ := Option.map_eq_some_iff.mp none
    have bound := fewer all counted
    omega
  rw [outcome_placeFields_entries keyed tells (fun count counted => (fewer count counted).le), added, ok_bind,
    placeFields_eq, outcome_nextElement_key (s := s.past entries.length) keyed more formed]
  change ((ItemReader.announced config s.shape key >>= _) >>= _) = _
  rw [refused]
  rfl

theorem Framing.opening_ne_emptyMap {framing : Framing} {count : Nat} (fits : ∀ head ∈ framing.head? count, head.Fits)
    (some : count ≠ 0) : (openingHeader .map (framing.head? count)).initial ≠ emptyMapByte := by
  cases framing with
  | delimited => exact (by decide : Major.map.initial indefiniteInfo ≠ emptyMapByte)
  | counted width =>
    have small : width.info count < 28 := (fits _ rfl).info_lt
    have info := Major.initial_info .map (show width.info count < 32 by omega)
    have positive : width.info count ≠ 0 := by cases width <;> simp [Width.info, some]
    intro same
    change Major.map.initial (width.info count) = emptyMapByte at same
    rw [same] at info
    exact positive (info.symm.trans (by decide))

theorem Listing.Extends.resembles {shape : Shape} {listing listing' : Listing} {extras : List Entry}
    (extends' : listing.Extends shape extras listing') (head : ∀ head ∈ listing.head?, head.Fits) (rest : Bytes) :
    Resembles (listing.bytes ++ rest) (listing'.bytes ++ rest) := by
  cases extras with
  | nil =>
    have same : listing' = listing := by
      rcases listing with ⟨tags, framing, entries⟩
      rcases listing' with ⟨tags', framing', entries'⟩
      cases extends'.tags
      cases extends'.framing rfl
      cases extends'.inserted.eq_of_nil
      rfl
    rw [same]
    exact .refl _
  | cons extra extras =>
    have more : listing'.entries.length ≠ 0 := by
      have member := extends'.inserted.mem (List.mem_cons_self (a := extra))
      exact fun none => by simp [List.length_eq_zero_iff.mp none] at member
    simp only [Listing.bytes, extends'.tags, List.append_assoc]
    refine Resembles.prepend ?_ _
    rw [openingBytes_eq_cons, openingBytes_eq_cons .map listing'.head?]
    exact .inr ⟨_, _, _, _, rfl, rfl, .inr ⟨openingHeader_major .map head,
      openingHeader_major .map extends'.head, Framing.opening_ne_emptyMap extends'.head more⟩⟩

section
variable {config : Config} {name expected : String} {fields : List (Field Ty)} {listing listing' : Listing}
  {extras : List Entry} {input rest : Bytes} {value : Value} {decoder after : Decoder}
  (keyed : (config.recordShape name fields).hasKeys = true)
  (reads : listing.Reads config (config.recordShape name fields) fields input rest)
  (found : outcome (readRecord config name expected (fieldReaders config fields)) (decoder.before input) =
    .ok (value, after))
include keyed reads found

theorem Listing.Reads.outcome_extended (ignores : config.ignoreUnknownKeys = true)
    (extends' : listing.Extends (config.recordShape name fields) extras listing')
    (small : ∀ extra ∈ extras, extra.value.length < 2 ^ 64) :
    outcome (readRecord config name expected (fieldReaders config fields)) (decoder.before (listing'.bytes ++ rest)) =
      .ok (value, after) := by
  obtain ⟨told, tells⟩ := reads.told
  obtain ⟨told', tells', same⟩ := extends'.inserted.tells
    (fun extra member => (extends'.unknown extra member).tells ignores (small extra member)) tells
  have reads' : listing'.Reads config (config.recordShape name fields) fields (listing'.bytes ++ rest) rest :=
    ⟨rfl, extends'.tags ▸ reads.tags, extends'.head, told', tells'⟩
  rw [reads'.outcome_eq keyed tells', extends'.tags, same, ← reads.outcome_eq keyed tells]
  exact found

theorem Listing.Reads.outcome_refused (strict : config.ignoreUnknownKeys = false) {extra : Entry}
    (extends' : listing.Extends (config.recordShape name fields) (extra :: extras) listing') {key : Key}
    (named : extra.key.body.key = .ok key) :
    outcome (readRecord config name expected (fieldReaders config fields)) (decoder.before (listing'.bytes ++ rest)) =
      .error (.unknownKey key) := by
  obtain ⟨told, tells⟩ := reads.told
  rw [reads.outcome_eq keyed tells] at found
  obtain ⟨own, owned, found⟩ := bind_eq_ok.mp found
  obtain ⟨_, added, -⟩ := bind_eq_ok.mp found
  obtain ⟨before, behind, others, split, split'⟩ := extends'.inserted.first
  -- The entries in front of the first unknown one are told as before.
  obtain ⟨seen, firstAdded⟩ := addAll_take added before.length
  have firstTells := List.forall₂_take before.length tells
  rw [split, List.take_left] at firstTells
  obtain ⟨key', named', resolved⟩ := (extends'.unknown extra List.mem_cons_self).key
  cases named.symm.trans named'
  have refused : ItemReader.announced config (config.recordShape name fields) extra.key =
      .error (.unknownKey key) := by
    simp [ItemReader.announced, named, resolved, strict]
  have fewer : before.length < listing'.entries.length := by simp [split']
  have inside := outcome_placeFields_refused
    (s := ⟨config.recordShape name fields, listing'.framing.announced listing'.entries.length, 0⟩) keyed firstTells
    (fun _ counted => fewer.trans_le (Framing.le_of_announced counted)) firstAdded
    (extends'.unknown extra List.mem_cons_self).formed refused
    (extra.value ++ (others.flatMap Entry.bytes ++ (listing'.framing.closing ++ rest)))
  have bytes : listing'.content ++ rest = before.flatMap Entry.bytes ++
      (extra.key.bytes ++ (extra.value ++ (others.flatMap Entry.bytes ++ (listing'.framing.closing ++ rest)))) := by
    simp only [Listing.content, split', List.flatMap_append, List.flatMap_cons, Entry.bytes, List.append_assoc]
  rw [Listing.bytes, List.append_assoc, List.append_assoc, outcome_readRecord_keyed keyed,
    outcome_beginStructure_keyed keyed (extends'.tags ▸ reads.tags) extends'.head, extends'.tags, owned, ok_map,
    ok_bind]
  dsimp only
  rw [outcome_map, closed, outcome_bind, Listing.head?, Framing.length_openingHeader extends'.head, bytes,
    inside]
  rfl

end

theorem Config.relaxes_ignoring (config : Config) : (config.set .ignoreUnknownKeys true).Relaxes config :=
  ⟨fun _ => rfl, id, id, fun _ => rfl⟩

-- Wherever an accepted document comes to a record with keys, unknown entries put into it change nothing for whoever
-- ignores them, and whoever does not refuses the first one by its key. The entries of the record are those of the
-- map it is written as, unless the configuration has a record be a data map and an array at once, so that a value
-- may end before its item does.
theorem Config.decode_extended {config : Config} (strict : config.ignoreUnknownKeys = false) {type : Ty}
    {input : Bytes} {value : Value} (accepted : config.decode type input = .ok value) {name expected : String}
    {fields : List (Field Ty)} {inner : Decoder}
    (visits : config.Visits type input (.record name expected fields) inner)
    (keyed : (config.recordShape name fields).hasKeys = true) :
    (∃ front listing rest, input = front ++ inner.rest ∧
      Listing.Reads config (config.recordShape name fields) fields listing inner.rest rest) ∧
    (config.Regular → ∀ tags framing entries rest, (Item.mk tags (.map framing entries)).Readable →
      inner.rest = (Item.mk tags (.map framing entries)).bytes ++ rest →
        Listing.Reads config (config.recordShape name fields) fields (.ofMap tags framing entries) inner.rest rest) ∧
    ∀ front listing rest, input = front ++ inner.rest →
      Listing.Reads config (config.recordShape name fields) fields listing inner.rest rest →
        ∀ listing' extras, Listing.Extends (config.recordShape name fields) listing extras listing' →
          (front ++ (listing'.bytes ++ rest)).length < 2 ^ 63 →
            (config.set .ignoreUnknownKeys true).decode type (front ++ (listing'.bytes ++ rest)) = .ok value ∧
            ∀ extra others key, extras = extra :: others → extra.key.body.key = .ok key →
              config.decode type (front ++ (listing'.bytes ++ rest)) = .error (.unknownKey key) := by
  obtain ⟨some, whole⟩ := visits.listed accepted keyed
  refine ⟨some, whole, fun front listing rest split reads listing' extras extends' small => ?_⟩
  have alike : Resembles inner.rest (listing'.bytes ++ rest) := reads.spelled ▸ extends'.resembles reads.head rest
  constructor
  · have relaxes := config.relaxes_ignoring
    have passes : (config.set .ignoreUnknownKeys true).decode type input = .ok value :=
      whole_relaxed (type.delimits.takes relaxes) accepted
    have visits' : (config.set .ignoreUnknownKeys true).Visits type input (.record name expected fields) inner :=
      Visits.relaxed relaxes visits
    obtain ⟨front', resume, split', law⟩ := visits'.decode_eq
    cases List.append_cancel_right (split.symm.trans split')
    obtain ⟨part, after, read⟩ := visits'.accepted passes
    rw [Target.read] at law read
    have short : ∀ extra ∈ extras, extra.value.length < 2 ^ 64 := by
      intro extra member
      have fits := Entry.length_value_le (extends'.inserted.mem member)
      simp only [List.length_append] at small
      omega
    have keyed' : ((config.set .ignoreUnknownKeys true).recordShape name fields).hasKeys = true := keyed
    have found := Listing.Reads.outcome_extended keyed' (reads.relaxed relaxes) read rfl extends' short
    rw [law _ alike, found, ← passes, split, law _ (.refl _), inner.before_rest, read]
  · rintro extra others key rfl named
    obtain ⟨front', resume, split', law⟩ := visits.decode_eq
    cases List.append_cancel_right (split.symm.trans split')
    obtain ⟨part, after, read⟩ := visits.accepted accepted
    rw [Target.read] at law read
    rw [law _ alike, reads.outcome_refused keyed read strict extends' named]
    rfl

def Listing.crowdedParcel : Listing where
  tags := []
  framing := .counted .immediate
  entries :=
    [⟨⟨[.shortest 5], .negative (.shortest 0)⟩, (Item.pair [] .delimited (.small 1) (.small 2)).bytes⟩,
      ⟨⟨[.shortest 5], .unsigned (.shortest 1)⟩, [0xd8, 0x18, 0x42, 0x81, 0x00]⟩,
      ⟨⟨[], .text (.whole ⟨.immediate, [0x78]⟩)⟩, (Item.small 3).bytes⟩,
      ⟨⟨[], .unsigned (.shortest 2)⟩, [0xa0]⟩]

theorem Config.decode_crowdedParcel :
    Config.parcels.ignoreUnknownKeys = false ∧
      Config.parcels.decode (.seq .parcel) [0x81, 0xa2, 0xc5, 0x01, 0xd8, 0x18, 0x42, 0x81, 0x00, 0x02, 0xa0] =
        .ok (.seq [.parcel]) ∧
      Config.parcels.Visits (.seq .parcel) (0x81 :: Listing.parcel.bytes)
        (.record "Parcel" "struct Parcel" Ty.parcelFields) ⟨Listing.parcel.bytes, none, []⟩ ∧
      (Config.parcels.recordShape "Parcel" Ty.parcelFields).hasKeys = true ∧
      (Config.parcels.set .ignoreUnknownKeys true).decode (.seq .parcel)
        [0x81, 0xa4, 0xc5, 0x20, 0xbf, 0x01, 0x02, 0xff, 0xc5, 0x01, 0xd8, 0x18, 0x42, 0x81, 0x00,
          0x61, 0x78, 0x03, 0x02, 0xa0] = .ok (.seq [.parcel]) ∧
      Config.parcels.decode (.seq .parcel)
        [0x81, 0xa4, 0xc5, 0x20, 0xbf, 0x01, 0x02, 0xff, 0xc5, 0x01, 0xd8, 0x18, 0x42, 0x81, 0x00,
          0x61, 0x78, 0x03, 0x02, 0xa0] = .error (.unknownKey (.label (-1))) := by
  have accepted : Config.parcels.decode (.seq .parcel) (0x81 :: Listing.parcel.bytes) = .ok (.seq [.parcel]) := by
    decide +kernel
  have negative : Entry.Unknown (Config.parcels.recordShape "Parcel" Ty.parcelFields)
      ⟨⟨[.shortest 5], .negative (.shortest 0)⟩, (Item.pair [] .delimited (.small 1) (.small 2)).bytes⟩ :=
    ⟨⟨by decide, by decide, by decide, by simp⟩, ⟨.label (-1), rfl, rfl⟩, _, Item.wellFormed_pair [] (by decide)
      (Item.wellFormed_small (by decide)) (Item.wellFormed_small (by decide)), rfl⟩
  have named : Entry.Unknown (Config.parcels.recordShape "Parcel" Ty.parcelFields)
      ⟨⟨[], .text (.whole ⟨.immediate, [0x78]⟩)⟩, (Item.small 3).bytes⟩ :=
    ⟨⟨by decide, by decide, by decide, by simp⟩, ⟨.name "x", rfl, rfl⟩, _, Item.wellFormed_small (by decide), rfl⟩
  have crowded : Listing.parcel.Extends (Config.parcels.recordShape "Parcel" Ty.parcelFields) _
      Listing.crowdedParcel :=
    ⟨rfl, fun _ => rfl, by decide, List.forall_mem_cons.mpr ⟨negative, List.forall_mem_singleton.mpr named⟩,
      .added (.kept (.added (.kept .done)))⟩
  obtain ⟨-, -, law⟩ := Config.decode_extended rfl accepted Config.visits_parcel rfl
  obtain ⟨lenient, strict⟩ := law [0x81] Listing.parcel [] rfl Listing.reads_parcel _ _ crowded (by decide)
  have spelled : [0x81] ++ (Listing.crowdedParcel.bytes ++ []) =
      [0x81, 0xa4, 0xc5, 0x20, 0xbf, 0x01, 0x02, 0xff, 0xc5, 0x01, 0xd8, 0x18, 0x42, 0x81, 0x00,
        0x61, 0x78, 0x03, 0x02, 0xa0] := by rfl
  rw [spelled] at lenient strict
  exact ⟨rfl, Listing.bytes_parcel ▸ accepted, Config.visits_parcel, rfl, lenient, strict _ _ _ rfl rfl⟩

theorem Config.decode_nestedPair_extended :
    Config.nestedPairs.decode .nestedPair [0x9f, 0xa2, 0x01, 0xa1, 0x01, 0x05, 0x05, 0x07, 0xff] =
        .ok (.nestedPair 5 7) ∧
      (Config.nestedPairs.set .ignoreUnknownKeys true).decode .nestedPair
        [0x9f, 0xa3, 0x01, 0xa1, 0x01, 0x05, 0x09, 0x05, 0x05, 0x07, 0xff] =
          .error (.mismatch (.duplicateField "count")) ∧
      Config.nestedPairs.decode .nestedPair
        [0x9f, 0xa3, 0x01, 0xa1, 0x01, 0x05, 0x09, 0x05, 0x05, 0x07, 0xff] =
          .error (.mismatch (.duplicateField "count")) := by
  refine ⟨?_, ?_, ?_⟩ <;> decide +kernel

end TypedCbor
