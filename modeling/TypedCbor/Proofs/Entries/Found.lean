import TypedCbor.Proofs.Entries.Listing
import TypedCbor.Proofs.Prefixes

namespace TypedCbor

open Decoder

theorem Cursor.body_of_readKey {input rest : Bytes} {key : Key} (named : outcome readKey input = .ok (key, rest)) :
    ∃ (body : Body Item) (more : Bytes), (Item.mk [] body).Formed ∧ input = bodyBytes body ++ more := by
  rw [Cursor.readKey_eq] at named
  obtain ⟨⟨header, after⟩, headed, goes⟩ := bind_eq_ok.mp (outcome_bind .. ▸ named)
  obtain ⟨head?, fits, opens, same, spelled⟩ := Cursor.opening_of_readHeader headed
  rw [Cursor.keyContent] at goes
  cases major : header.major with
  | unsigned =>
    rw [major] at opens spelled
    cases head? with
    | none => exact absurd (opens rfl) (by decide)
    | some head => exact ⟨.unsigned head, after, ⟨by simp, fits, by simp [Body.chunks], by simp⟩, spelled⟩
  | negative =>
    rw [major] at opens spelled
    cases head? with
    | none => exact absurd (opens rfl) (by decide)
    | some head => exact ⟨.negative head, after, ⟨by simp, fits, by simp [Body.chunks], by simp⟩, spelled⟩
  | text =>
    rw [major] at same spelled goes
    obtain ⟨⟨payload, after'⟩, read, -⟩ := bind_eq_ok.mp (outcome_bind .. ▸ goes)
    dsimp only at read
    rw [same] at read
    obtain ⟨form, rfl, chunks, content⟩ := Cursor.form_of_readPayload fits (openingHeader_major .text fits) read
    refine ⟨.text form, after', ⟨by simp, fits, chunks, by simp⟩, ?_⟩
    rw [spelled, content, bodyBytes, List.append_assoc]
  | bytes | array | map | tag | simple =>
    rw [major] at goes
    cases goes

theorem Cursor.key_of_readKey {input between rest : Bytes} {numbers : List UInt64} {key : Key}
    (tagged : outcome Cursor.readTags input = .ok (numbers, between))
    (named : outcome readKey between = .ok (key, rest)) :
    ∃ item : Item, item.Formed ∧ item.tagNumbers = numbers ∧ item.body.key = .ok key ∧
      input = item.bytes ++ rest := by
  obtain ⟨tags, fit, rfl, rfl, -⟩ := Cursor.tags_of_readTags tagged
  obtain ⟨body, more, formed, rfl⟩ := Cursor.body_of_readKey named
  rw [@outcome_readKey body formed.head formed.chunks] at named
  obtain ⟨key', found, same⟩ := map_eq_ok.mp named
  cases same
  exact ⟨⟨tags, body⟩, ⟨fit, formed.head, formed.chunks, formed.simple⟩, rfl, found,
    by rw [Item.bytes, List.append_assoc]⟩

theorem Ty.taken_of_read {config : Config} (type : Ty) {input : Bytes} {field : Option Element} {value : Value}
    {after : Decoder} (found : outcome (type.read config) ⟨input, field, []⟩ = .ok (value, after)) :
    ∃ taken, input = taken ++ after.rest ∧
      outcome (type.read config) ⟨taken, field, []⟩ = .ok (value, ⟨[], none, []⟩) := by
  obtain ⟨taken, split, law⟩ := type.delimits.takes (.refl config) _ _ _ found
  have settled := Ty.settles config type _ _ _ found
  have alone := law.whole [] False.elim
  rw [List.append_nil] at alone
  refine ⟨taken, split, alone.trans ?_⟩
  rcases after with ⟨rest, field', pending⟩
  obtain ⟨rfl, rfl⟩ := settled
  rfl

theorem Cursor.taken_of_skipItem {input rest : Bytes} (skipped : outcome Cursor.skipItem input = .ok ((), rest)) :
    ∃ taken, input = taken ++ rest ∧ outcome Cursor.skipItem taken = .ok ((), []) := by
  obtain ⟨taken, split, law⟩ := Cursor.takes_skipItem _ _ _ (outcome_cursor_clear skipped)
  obtain ⟨_, ran, same⟩ := rest_of_cursor (law.whole [] False.elim)
  cases same
  rw [rest_before, List.append_nil] at ran
  exact ⟨taken, split, ran⟩

section
variable {config : Config} {fields : List (Field Ty)} {s : OpenStructure} (keyed : s.shape.hasKeys = true)
include keyed

theorem key_of_nextElement {input : Bytes} {p : Option Nat × OpenStructure} {after : Decoder}
    (found : outcome (nextElement config s) ⟨input, none, []⟩ = .ok (p, after)) :
    ((s.remaining = none ∨ s.remaining = some 0) ∧ p = (none, s) ∧ after = ⟨input, none, []⟩) ∨
      ∃ (key : Item) (rest : Bytes), key.Formed ∧ input = key.bytes ++ rest ∧ s.remaining ≠ some 0 := by
  rw [nextElement, if_pos keyed, outcome_bind, outcome_get, ok_bind] at found
  cases keyRound_of_nextByKey found with
  | ended spent => exact .inl ⟨spent, rfl, rfl⟩
  | announced more tagged named | passed more tagged named =>
    obtain ⟨item, formed, -, -, spelled⟩ := Cursor.key_of_readKey tagged named
    exact .inr ⟨item, _, formed, spelled, more (isAtValue_of_keyed keyed _ _)⟩

theorem value_of_placeFields (more : s.remaining ≠ some 0) {key : Item} (formed : key.Formed) {rest : Bytes}
    {seen : List (String × Value)} {p : List (String × Value) × OpenStructure} {after : Decoder}
    (found : outcome (placeFields config (fieldReaders config fields) seen s) ⟨key.bytes ++ rest, none, []⟩ =
      .ok (p, after)) :
    ∃ (value : Bytes) (told : Option (String × Value)) (behind : Bytes), rest = value ++ behind ∧
      (Entry.mk key value).Tells config s.shape fields told := by
  rw [placeFields_eq, outcome_nextElement_key keyed more formed] at found
  obtain ⟨⟨next, between⟩, announced, placed⟩ := bind_eq_ok.mp found
  obtain ⟨element, told, announced⟩ := bind_eq_ok.mp announced
  cases element with
  | none =>
    obtain ⟨⟨_, behind⟩, skipped, -⟩ := bind_eq_ok.mp announced
    obtain ⟨value, rfl, alone⟩ := Cursor.taken_of_skipItem skipped
    exact ⟨value, none, behind, rfl, .passed formed told (by simp) alone⟩
  | some index =>
    cases announced
    rw [placeAnnounced, show (s.past 1).shape = s.shape from rfl] at placed
    cases known : fields.find? (·.name == s.shape.elementName index) with
    | none =>
      rw [known] at placed
      obtain ⟨⟨_, _⟩, passed, -⟩ := bind_eq_ok.mp placed
      rw [outcome_readIgnored] at passed
      obtain ⟨⟨_, behind⟩, skipped, -⟩ := map_eq_ok.mp passed
      obtain ⟨value, rfl, alone⟩ := Cursor.taken_of_skipItem skipped
      exact ⟨value, none, behind, rfl, .passed formed told (by simpa using known) alone⟩
    | some field =>
      rw [known] at placed
      dsimp only at placed
      split at placed
      · cases placed
      · obtain ⟨⟨value, after⟩, read, -⟩ := bind_eq_ok.mp placed
        obtain ⟨taken, rfl, alone⟩ := field.type.taken_of_read read
        exact ⟨taken, _, after.rest, rfl, .field formed told known alone⟩

theorem entry_of_placeFields {seen : List (String × Value)} {input : Bytes}
    {p : List (String × Value) × OpenStructure} {after : Decoder}
    (found : outcome (placeFields config (fieldReaders config fields) seen s) ⟨input, none, []⟩ = .ok (p, after)) :
    ((s.remaining = none ∨ s.remaining = some 0) ∧ p.2 = s ∧ after = ⟨input, none, []⟩) ∨
      ∃ (entry : Entry) (told : Option (String × Value)) (rest : Bytes), s.remaining ≠ some 0 ∧
        input = entry.bytes ++ rest ∧ entry.Tells config s.shape fields told := by
  obtain ⟨⟨next, between⟩, announced, placed⟩ := bind_eq_ok.mp (placeFields_eq .. ▸ found)
  rcases key_of_nextElement keyed announced with ⟨ended, rfl, rfl⟩ | ⟨key, rest, formed, rfl, more⟩
  · obtain ⟨values, -, same⟩ := map_eq_ok.mp placed
    cases same
    exact .inl ⟨ended, rfl, rfl⟩
  · obtain ⟨value, told, behind, rfl, tells⟩ := value_of_placeFields keyed more formed found
    exact .inr ⟨⟨key, value⟩, told, behind, more, by rw [Entry.bytes, List.append_assoc], tells⟩

theorem entries_of_placeFields {seen : List (String × Value)} {input : Bytes}
    {p : List (String × Value) × OpenStructure} {after : Decoder}
    (found : outcome (placeFields config (fieldReaders config fields) seen s) ⟨input, none, []⟩ = .ok (p, after)) :
    ∃ (entries : List Entry) (told : List (Option (String × Value))),
      List.Forall₂ (Entry.Tells config s.shape fields) entries told ∧
      input = entries.flatMap Entry.bytes ++ after.rest ∧ ReadOut s.remaining p.2.remaining entries.length := by
  induction length : input.length using Nat.strong_induction_on generalizing s seen input with
  | _ total ih =>
    rcases entry_of_placeFields keyed found with ⟨ended, same, rfl⟩ | ⟨entry, told, rest, more, rfl, tells⟩
    · refine ⟨[], [], .nil, rfl, ?_⟩
      rw [same]
      exact ended.imp (fun opens => ⟨opens, opens⟩) fun none => ⟨none, none⟩
    · rw [outcome_placeFields_entry keyed more tells] at found
      obtain ⟨seen', -, found⟩ := bind_eq_ok.mp found
      have shorter : rest.length < total := by
        have some := entry.key.length_bytes_pos
        simp only [← length, Entry.bytes, List.length_append]
        omega
      obtain ⟨entries, others, each, rfl, count⟩ := ih rest.length shorter (s := s.past 1) keyed found rfl
      exact ⟨entry :: entries, told :: others, .cons tells each,
        by rw [List.flatMap_cons, List.append_assoc], count.next more⟩

end

theorem framing_of_readOut {head? : Option Head} (fits : ∀ head ∈ head?, head.Fits) {remaining : Option Nat}
    {count : Nat} {input rest : Bytes} (readOut : ReadOut (openingHeader .map head?).length remaining count)
    (ended : (remaining = some 0 ∧ input = rest) ∨ (remaining = none ∧ input = Wire.closing ++ rest)) :
    ∃ framing : Framing, framing.head? count = head? ∧ input = framing.closing ++ rest := by
  cases head? with
  | none =>
    rcases readOut with ⟨-, rfl⟩ | ⟨counted, -⟩
    · rcases ended with ⟨counted, -⟩ | ⟨-, closed⟩
      · cases counted
      · exact ⟨.delimited, rfl, closed⟩
    · cases counted
  | some head =>
    have length : (openingHeader .map (some head)).length = some head.n :=
      congrArg some (fits head rfl).toNat_number
    rw [length] at readOut
    rcases readOut with ⟨opens, -⟩ | ⟨counted, rfl⟩
    · cases opens
    · cases counted
      rcases ended with ⟨-, same⟩ | ⟨opens, -⟩
      · exact ⟨.counted head.width, rfl, same⟩
      · cases opens

theorem listing_of_readRecord {config : Config} {name expected : String} {fields : List (Field Ty)}
    (keyed : (config.recordShape name fields).hasKeys = true) {decoder after : Decoder} {value : Value}
    (found : outcome (readRecord config name expected (fieldReaders config fields)) decoder = .ok (value, after)) :
    ∃ listing : Listing,
      listing.Reads config (config.recordShape name fields) fields decoder.rest after.rest := by
  rw [outcome_readRecord_keyed keyed] at found
  obtain ⟨⟨s, first⟩, begun, found⟩ := bind_eq_ok.mp found
  dsimp only at found
  rw [outcome_map] at found
  obtain ⟨⟨values, last⟩, inside, same⟩ := map_eq_ok.mp found
  cases same
  obtain ⟨⟨⟨placed, s'⟩, between⟩, read, goes⟩ := bind_eq_ok.mp (outcome_bind .. ▸ inside)
  obtain ⟨⟨_, last'⟩, ended, same⟩ := bind_eq_ok.mp (outcome_bind .. ▸ goes)
  cases same
  obtain ⟨header, own, opening, opened⟩ := header_of_begun begun
  obtain ⟨major, rfl⟩ := eq_of_opened opened
  obtain ⟨tags, head?, fit, fits, -, -, same, spelled⟩ := opening_of_readHeader opening
  obtain ⟨field, pending⟩ := settles_readHeader config _ _ _ opening
  rw [(header_of_keyed keyed).2] at major
  rw [major] at same spelled
  have here : first = ⟨first.rest, none, []⟩ := by
    rcases first with ⟨rest, field', pending'⟩
    cases field
    cases pending
    rfl
  rw [here] at read
  obtain ⟨entries, told, each, content, readOut⟩ := @entries_of_placeFields config fields _ keyed _ _ _ _ read
  rw [same] at readOut
  obtain ⟨framing, rfl, closes⟩ := framing_of_readOut fits readOut (eq_of_endStructure ended)
  refine ⟨⟨tags, framing, entries⟩, ?_, fit, fits, told, each⟩
  rw [spelled, content, closes]
  simp only [Listing.bytes, Listing.head?, Listing.content, List.append_assoc]

theorem Entry.Tells.value_eq {config : Config} (regular : config.Regular) {shape : Shape} {fields : List (Field Ty)}
    {entry : Entry} {told : Option (String × Value)} (tells : entry.Tells config shape fields told) {item : Item}
    (readable : item.Readable) {rest more : Bytes} (same : entry.value ++ rest = item.bytes ++ more) :
    entry.value = item.bytes := by
  have behind : rest = more := by
    cases tells with
    | @field index field value formed announced known read =>
      have here := field.type.read_append read rest
      rw [same, follows_read regular field.type item readable] at here
      obtain ⟨_, -, left⟩ := map_eq_ok.mp here
      cases left
      rfl
    | passed formed announced unknown skipped =>
      have here := Cursor.skipItem_append skipped rest
      rw [same, Cursor.outcome_skipItem readable.wellFormed readable.small] at here
      cases here
      rfl
  rw [behind] at same
  exact List.append_cancel_right same

-- The entries of a map, as a record finds them if each value is the item it is written as.
def Listing.ofMap (tags : List Head) (framing : Framing) (entries : List (Item × Item)) : Listing :=
  ⟨tags, framing, entries.map fun entry => ⟨entry.1, entry.2.bytes⟩⟩

theorem Listing.bytes_ofMap (tags : List Head) (framing : Framing) (entries : List (Item × Item)) :
    (ofMap tags framing entries).bytes = (Item.mk tags (.map framing entries)).bytes := by
  have same : (entries.map fun entry => Entry.mk entry.1 entry.2.bytes).flatMap Entry.bytes =
      entriesBytes entries := by
    induction entries with
    | nil => rfl
    | cons entry entries ih =>
      rcases entry with ⟨key, value⟩
      rw [List.map_cons, List.flatMap_cons, ih, entriesBytes, Entry.bytes, List.append_assoc]
  rw [bytes, head?, content, ofMap, same, List.length_map, Item.bytes, bodyBytes]

theorem told_of_placeFields {config : Config} (regular : config.Regular) {fields : List (Field Ty)}
    {s : OpenStructure} (keyed : s.shape.hasKeys = true) {entries : List (Item × Item)}
    (readable : ∀ entry ∈ entries, entry.1.Formed ∧ entry.2.Readable)
    (enough : ∀ count ∈ s.remaining, entries.length ≤ count) {seen : List (String × Value)} {rest : Bytes}
    {p : List (String × Value) × OpenStructure} {after : Decoder}
    (found : outcome (placeFields config (fieldReaders config fields) seen s)
      ⟨entriesBytes entries ++ rest, none, []⟩ = .ok (p, after)) :
    ∃ told, List.Forall₂ (Entry.Tells config s.shape fields)
      (entries.map fun entry => ⟨entry.1, entry.2.bytes⟩) told := by
  induction entries generalizing s seen with
  | nil => exact ⟨[], .nil⟩
  | cons entry entries ih =>
    rcases entry with ⟨key, item⟩
    obtain ⟨⟨formed, here⟩, readable⟩ := List.forall_mem_cons.mp readable
    have more : s.remaining ≠ some 0 := fun none => absurd (enough 0 none) (by simp)
    rw [entriesBytes, List.append_assoc, List.append_assoc] at found
    obtain ⟨value, told, behind, split, tells⟩ := value_of_placeFields keyed more formed found
    have whole : value = item.bytes := tells.value_eq regular here split.symm
    subst whole
    have passed := outcome_placeFields_entry keyed more tells seen (entriesBytes entries ++ rest)
    rw [Entry.bytes, List.append_assoc, found] at passed
    obtain ⟨seen', -, found⟩ := bind_eq_ok.mp passed.symm
    obtain ⟨others, each⟩ := ih (s := s.past 1) keyed readable (OpenStructure.enough_past enough) found
    exact ⟨told :: others, .cons tells each⟩

theorem reads_ofMap {config : Config} (regular : config.Regular) {name expected : String} {fields : List (Field Ty)}
    (keyed : (config.recordShape name fields).hasKeys = true) {tags : List Head} {framing : Framing}
    {entries : List (Item × Item)} (readable : (Item.mk tags (.map framing entries)).Readable)
    {decoder after : Decoder} {rest : Bytes}
    (spelled : decoder.rest = (Item.mk tags (.map framing entries)).bytes ++ rest) {value : Value}
    (found : outcome (readRecord config name expected (fieldReaders config fields)) decoder = .ok (value, after)) :
    (Listing.ofMap tags framing entries).Reads config (config.recordShape name fields) fields decoder.rest rest := by
  have fit : ∀ tag ∈ tags, tag.Fits := readable.formed.tags
  have head : ∀ head ∈ framing.head? entries.length, head.Fits := readable.formed.head
  rw [outcome_readRecord_keyed keyed, ← decoder.before_rest, spelled, Item.bytes, bodyBytes, List.append_assoc,
    List.append_assoc, outcome_beginStructure_keyed keyed fit head,
    Framing.length_openingHeader head] at found
  obtain ⟨p, begun, found⟩ := bind_eq_ok.mp found
  obtain ⟨_, -, rfl⟩ := map_eq_ok.mp begun
  dsimp only at found
  rw [outcome_map, List.append_assoc] at found
  obtain ⟨_, inside, -⟩ := map_eq_ok.mp found
  obtain ⟨_, read, -⟩ := bind_eq_ok.mp (outcome_bind .. ▸ inside)
  have each := told_of_placeFields (s := ⟨config.recordShape name fields, framing.announced entries.length, 0⟩)
    regular keyed (fun entry member => ?_) (fun _ => Framing.le_of_announced) read
  · refine ⟨by rw [Listing.bytes_ofMap, spelled], fit, ?_, each⟩
    rwa [Listing.head?, Listing.ofMap, List.length_map]
  · have parts : ∀ child ∈ flattened entries, child.Readable := fun _ present => readable.child present
    exact ⟨(parts _ (mem_flattened.mpr ⟨entry, member, .inl rfl⟩)).formed,
      parts _ (mem_flattened.mpr ⟨entry, member, .inr rfl⟩)⟩

theorem Config.Visits.listed {config : Config} {type : Ty} {input : Bytes} {value : Value}
    (accepted : config.decode type input = .ok value) {name expected : String} {fields : List (Field Ty)}
    {inner : Decoder} (visits : config.Visits type input (.record name expected fields) inner)
    (keyed : (config.recordShape name fields).hasKeys = true) :
    (∃ front listing rest, input = front ++ inner.rest ∧
      Listing.Reads config (config.recordShape name fields) fields listing inner.rest rest) ∧
    (config.Regular → ∀ tags framing entries rest, (Item.mk tags (.map framing entries)).Readable →
      inner.rest = (Item.mk tags (.map framing entries)).bytes ++ rest →
        Listing.Reads config (config.recordShape name fields) fields (.ofMap tags framing entries) inner.rest rest) := by
  obtain ⟨front, -, split, -⟩ := visits.decode_eq
  obtain ⟨part, after, read⟩ := visits.accepted accepted
  obtain ⟨listing, reads⟩ := listing_of_readRecord keyed read
  exact ⟨⟨front, listing, after.rest, split, reads⟩,
    fun regular tags framing entries rest readable spelled => reads_ofMap regular keyed readable spelled read⟩

def Ty.parcelFields : List (Field Ty) := [⟨"content", .embedded .any, none⟩, ⟨"note", .option .bool, none⟩]

def Listing.parcel : Listing where
  tags := []
  framing := .counted .immediate
  entries :=
    [⟨⟨[.shortest 5], .unsigned (.shortest 1)⟩, [0xd8, 0x18, 0x42, 0x81, 0x00]⟩,
      ⟨⟨[], .unsigned (.shortest 2)⟩, [0xa0]⟩]

theorem Item.formed_label {tags : List Head} (fit : ∀ tag ∈ tags, tag.Fits) {head : Head} (fits : head.Fits) :
    (Item.mk tags (.unsigned head)).Formed :=
  ⟨fit, fun _ member => Option.mem_some.mp member ▸ fits, by simp [Body.chunks], by simp⟩

theorem Listing.bytes_parcel : Listing.parcel.bytes =
    [0xa2, 0xc5, 0x01, 0xd8, 0x18, 0x42, 0x81, 0x00, 0x02, 0xa0] := rfl

theorem Config.visits_parcel : Config.parcels.Visits (.seq .parcel) (0x81 :: Listing.parcel.bytes)
    (.record "Parcel" "struct Parcel" Ty.parcelFields) ⟨Listing.parcel.bytes, none, []⟩ := by
  have begun : outcome (beginStructure Config.parcels .list) ⟨0x81 :: Listing.parcel.bytes, none, []⟩ =
      .ok (⟨.list, some 1, 0⟩, ⟨Listing.parcel.bytes, none, []⟩) := rfl
  have announced : outcome (nextElement Config.parcels ⟨.list, some 1, 0⟩) ⟨Listing.parcel.bytes, none, []⟩ =
      .ok ((some 0, ⟨.list, some 0, 1⟩), ⟨Listing.parcel.bytes, none, []⟩) := rfl
  exact .further (.further .here (.element rfl begun .done announced rfl)) .record

theorem Listing.reads_parcel : Listing.parcel.Reads Config.parcels
    (Config.parcels.recordShape "Parcel" Ty.parcelFields) Ty.parcelFields Listing.parcel.bytes [] := by
  refine ⟨rfl, by decide, by decide,
    [some ("content", .embedded (.visited (.seq (some 1)) (.seq [.visited .u64 (.int .u64 0)])) (some [0x81, 0x00])),
      some ("note", .none)], .cons ?_ (.cons ?_ .nil)⟩
  · exact @Entry.Tells.field _ _ _ _ 0 _ _ (Item.formed_label (by decide) (by decide)) rfl rfl rfl
  · exact @Entry.Tells.field _ _ _ _ 1 _ _ (Item.formed_label (by decide) (by decide)) rfl rfl rfl

-- A record of which the first field is a data map and an array at once. Reading it stops behind the key of a pair,
-- and what stands there is then the next key.
def Config.nestedPairs : Config :=
  { descriptors :=
      [⟨"Pair", .map, some [], []⟩,
        ⟨"Outer", .keyed, none,
          [⟨"pair", some 1, [], [], false, false, none⟩, ⟨"count", some 5, [], [], false, false, none⟩]⟩] }

def Ty.nestedPair : Ty :=
  .tuple
    [.record "Outer" [⟨"pair", .record "Pair" [⟨"key", .int .u8, none⟩], none⟩, ⟨"count", .int .u8, none⟩], .int .u8]

def Value.nestedPair (count behind : Int) : Value :=
  .tuple
    [.record "Outer" [("pair", .record "Pair" [("key", .int .u8 1)]), ("count", .int .u8 count)], .int .u8 behind]

end TypedCbor
