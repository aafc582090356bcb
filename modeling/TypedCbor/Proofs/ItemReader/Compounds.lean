import TypedCbor.Proofs.ItemReader.Fields

namespace TypedCbor

theorem Framing.length_openingHeader {framing : Framing} {count : Nat} {major : Major}
    (fits : ∀ head ∈ framing.head? count, head.Fits) :
    (openingHeader major (framing.head? count)).length = framing.announced count := by
  cases framing with
  | delimited => rfl
  | counted width =>
    have number : (Head.mk width count).number.toNat = count := (fits _ rfl).toNat_number
    simp [openingHeader, Framing.head?, Header.length, Framing.announced, number]

namespace Decoder

variable {α : Type} {config : Config} {shape : Shape}

theorem eq_of_opened {header : Header} {own : List UInt64} {s : OpenStructure}
    (found : opened config shape header own = .ok s) :
    header.major = shape.header.1 ∧ s = ⟨shape, header.length, 0⟩ := by
  unfold opened at found
  dsimp only at found
  split at found
  · cases found
  · split at found
    · cases found
      exact ⟨‹_›, rfl⟩
    · cases found

theorem suffix_of_opened {header : Header} {own : List UInt64} {s : OpenStructure}
    (found : opened config shape header own = .ok s) (verifies : config.verifyValueTags = true)
    {tags : List UInt64} (framed : shape.arrayTags = some tags) : tags <:+ own := by
  by_contra misframed
  have other : tags.isSuffixOf own = false := by
    rw [← Bool.not_eq_true, List.isSuffixOf_iff_suffix]
    exact misframed
  unfold opened at found
  simp only [framed, verifies, other, Bool.not_false, Bool.and_self, if_true] at found
  cases found

def enclosed (config : Config) (shape : Shape) (read : OpenStructure → DecodeM (α × OpenStructure))
    (opening : Header × List UInt64) : DecodeM α := do
  let s ← ofExcept (opened config shape opening.1 opening.2)
  let (a, s) ← read s
  endStructure s
  return a

theorem map_enclosed {β : Type} (f : α → β) (read : OpenStructure → DecodeM (α × OpenStructure))
    (header : Header) (own : List UInt64) :
    f <$> enclosed config shape read (header, own) = (do
      let s ← ofExcept (opened config shape header own)
      let (a, s) ← read s
      endStructure s
      return f a) := by
  simp only [enclosed, map_bind, map_pure]

-- What the inside of an array comes to, and that it leaves none but its own items.
structure TakesItems (shape : Shape) (read : OpenStructure → DecodeM (α × OpenStructure))
    (told : List Item → Except Error (α × List Item)) (framing : Framing) (items : List Item) :
    Prop where
  reads : ∀ rest,
    outcome (read (standing shape framing items.length items.length)) (within framing items rest) =
      (fun p => ((p.1, standing shape framing items.length p.2.length), within framing p.2 rest)) <$>
        told items
  leaves : ∀ a left, told items = .ok (a, left) → ∀ item ∈ left, item ∈ items

def TakesEntries (shape : Shape) (read : OpenStructure → DecodeM (α × OpenStructure))
    (told : List (Item × Item) → Except Error α) (framing : Framing) (entries : List (Item × Item)) :
    Prop :=
  ∀ rest, ∃ index,
    outcome (read ⟨shape, framing.announced entries.length, 0⟩)
        (within framing (flattened entries) rest) =
      (fun a => ((a, ⟨shape, framing.announced 0, index⟩), within framing [] rest)) <$> told entries

theorem outcome_enclosed_array (config : Config) {shape : Shape} {read : OpenStructure → DecodeM (α × OpenStructure)}
    {told : List Item → Except Error (α × List Item)} {body : Body Item}
    (array : shape.header.1 = .array) (fits : ∀ head ∈ body.head?, head.Fits)
    (inside : ∀ framing items, body = .array framing items →
      TakesItems shape read told framing items ∧ ∀ item ∈ items, item.Formed)
    (own : List UInt64) (rest : Bytes) :
    outcome (enclosed config shape read (body.header, own)) ⟨body.content ++ rest, none, []⟩ =
      (·, ⟨rest, none, []⟩) <$> ItemReader.arrayed config shape told own body := by
  simp only [enclosed, ItemReader.arrayed, outcome_bind, outcome_ofExcept]
  cases found : opened config shape body.header own with
  | error e => rfl
  | ok s =>
    obtain ⟨major, rfl⟩ := eq_of_opened found
    rw [Body.header_major fits, array] at major
    cases body <;> simp only [Body.major, reduceCtorEq] at major
    case array framing items =>
      obtain ⟨⟨reads, leaves⟩, formed⟩ := inside framing items rfl
      have listed : shape.kind ≠ .map := by
        intro data
        simp [Shape.header, data] at array
      have units (count : Nat) : shape.units count = count := if_neg listed
      have length : (Body.array framing items).header.length = framing.announced items.length :=
        Framing.length_openingHeader fits
      have inside := reads rest
      simp only [standing, units, Nat.sub_self, within] at inside
      simp only [discard, ok_map, ok_bind, length, Body.content, List.append_assoc, inside]
      cases taken : told items with
      | error e => rfl
      | ok p =>
        rcases p with ⟨a, left⟩
        have ends := outcome_endStructure shape framing
          (fun item member => formed item (leaves a left taken item member))
          (items.length - left.length) rest
        rw [within] at ends
        simp only [ok_map, ok_bind, ends]
        cases framing.ended left <;> rfl

theorem outcome_enclosed_map (config : Config) {shape : Shape} {read : OpenStructure → DecodeM (α × OpenStructure)}
    {told : List (Item × Item) → Except Error α} {body : Body Item}
    (map : shape.header.1 = .map) (fits : ∀ head ∈ body.head?, head.Fits)
    (inside : ∀ framing entries, body = .map framing entries →
      TakesEntries shape read told framing entries)
    (own : List UInt64) (rest : Bytes) :
    outcome (enclosed config shape read (body.header, own)) ⟨body.content ++ rest, none, []⟩ =
      (·, ⟨rest, none, []⟩) <$> ItemReader.mapped config shape told own body := by
  simp only [enclosed, ItemReader.mapped, outcome_bind, outcome_ofExcept]
  cases found : opened config shape body.header own with
  | error e => rfl
  | ok s =>
    obtain ⟨major, rfl⟩ := eq_of_opened found
    rw [Body.header_major fits, map] at major
    cases body <;> simp only [Body.major, reduceCtorEq] at major
    case map framing entries =>
      obtain ⟨index, reads⟩ := inside framing entries rfl rest
      have length : (Body.map framing entries).header.length = framing.announced entries.length :=
        Framing.length_openingHeader fits
      have ends := @outcome_endStructure shape framing [] (by simp) index rest
      rw [within] at reads
      rw [List.length_nil] at ends
      simp only [discard, ok_map, ok_bind, length, Body.content, entriesBytes_eq, List.append_assoc,
        reads]
      cases told entries with
      | error e => rfl
      | ok a =>
        simp only [ok_map, ok_bind, ends]
        cases framing <;> rfl

def FollowsItems (shape : Shape) (read : OpenStructure → DecodeM (α × OpenStructure))
    (told : List Item → Except Error (α × List Item)) : Prop :=
  ∀ framing items, (∀ item ∈ items, item.Readable) → TakesItems shape read told framing items

def FollowsEntries (shape : Shape) (read : OpenStructure → DecodeM (α × OpenStructure))
    (told : List (Item × Item) → Except Error α) : Prop :=
  ∀ framing entries, (∀ entry ∈ entries, entry.1.Readable ∧ entry.2.Readable) →
    TakesEntries shape read told framing entries

theorem FollowsItems.enclosed {read : OpenStructure → DecodeM (α × OpenStructure)}
    {told : List Item → Except Error (α × List Item)} (follows : FollowsItems shape read told)
    (config : Config)
    (array : shape.header.1 = .array) {item : Item} (readable : item.Readable) (own : List UInt64)
    (rest : Bytes) :
    outcome (enclosed config shape read (item.body.header, own))
        ⟨item.body.content ++ rest, none, []⟩ =
      (·, ⟨rest, none, []⟩) <$> ItemReader.arrayed config shape told own item.body := by
  refine outcome_enclosed_array config array readable.formed.head (fun framing items found => ?_) own rest
  have each (child : Item) (member : child ∈ items) : child.Readable :=
    readable.child (by rw [found]; exact member)
  exact ⟨follows framing items each, fun child member => (each child member).formed⟩

theorem FollowsEntries.enclosed {read : OpenStructure → DecodeM (α × OpenStructure)}
    {told : List (Item × Item) → Except Error α} (follows : FollowsEntries shape read told)
    (config : Config)
    (map : shape.header.1 = .map) {item : Item} (readable : item.Readable) (own : List UInt64)
    (rest : Bytes) :
    outcome (enclosed config shape read (item.body.header, own))
        ⟨item.body.content ++ rest, none, []⟩ =
      (·, ⟨rest, none, []⟩) <$> ItemReader.mapped config shape told own item.body := by
  refine outcome_enclosed_map config map readable.formed.head (fun framing entries found => ?_) own rest
  refine follows framing entries fun entry member => ⟨readable.child ?_, readable.child ?_⟩ <;>
    rw [found] <;> exact mem_flattened.mpr ⟨entry, member, by simp⟩

section
variable {read : DecodeM α} {told : ItemReader α} {framing : Framing} {items : List Item}

theorem takesItems_elements (formed : ∀ item ∈ items, item.Formed)
    (each : ∀ item ∈ items, FollowsAt read told item) :
    TakesItems .list (readElements config read) told.elements framing items := by
  refine ⟨fun rest => ?_, fun values left found item member => ?_⟩
  · have enough := Nat.lt_succ_of_le (length_le_within framing items rest)
    simp only [readElements, outcome_bind, outcome_get, ok_bind, ItemReader.elements,
      outcome_elementRounds formed each (Nat.le_refl _) rest enough]
    cases items.mapM (told.on none) <;> rfl
  · unfold ItemReader.elements at found
    cases read : items.mapM (told.on none) <;> rw [read] at found <;> cases found
    cases member

theorem follows_elements (follows : Follows read told) (config : Config) :
    FollowsItems .list (readElements config read) told.elements :=
  fun _ _ readable => takesItems_elements (fun item member => (readable item member).formed)
    fun item member => follows item (readable item member)

theorem outcome_readPayload_embedded {width : Width} {item : Item}
    (fits : (Head.mk width item.bytes.length).Fits) (rest : Bytes) :
    outcome (Cursor.readPayload (Body.embedded width item).header) (item.bytes ++ rest) =
      .ok (⟨item.bytes, true⟩, rest) := by
  have payload := @Cursor.outcome_readPayload .bytes (.whole ⟨width, item.bytes⟩)
    (by simpa [StringForm.chunks, Chunk.head] using fits) (fun _ => rfl) rest
  rw [StringForm.content_whole] at payload
  exact payload

theorem readBytes_eq : readBytes config = readHeader config >>= fun opening =>
    match opening.1.major with
    | .bytes => cursor (Cursor.readPayload opening.1)
    | .array => (Payload.mk · false) <$> enclosed config .list (readElements config (readByte config)) opening
    | _ => throw (opening.1.unexpected "byte string") := by
  unfold readBytes
  congr
  funext opening
  rcases opening with ⟨header, own⟩
  have array := @map_enclosed _ config .list _ (Payload.mk · false)
    (readElements config (readByte config)) header own
  dsimp only
  cases header.major <;> first | rfl | exact array.symm

theorem followsAt_readBytes {item : Item} (wellFormed : item.WellFormed) :
    FollowsAt (readBytes config) (ItemReader.bytes config) item := by
  rw [readBytes_eq]
  rcases item with ⟨tags, body⟩
  have formed := wellFormed.formed
  have known : body.header.major = body.major := Body.header_major formed.head
  refine FollowsAt.behindTags formed fun own rest => ?_
  simp only [Item.body_mk, known]
  cases body with
  | bytes form =>
    have payload := @Cursor.outcome_readPayload .bytes form formed.chunks (fun _ => rfl) rest
    change outcome (cursor (Cursor.readPayload (openingHeader .bytes form.head?)))
      (Decoder.mk (form.body .bytes ++ rest) none []) = _
    rw [outcome_cursor, payload]
    rfl
  | embedded width item =>
    change outcome (cursor (Cursor.readPayload (Body.embedded width item).header))
      (Decoder.mk (item.bytes ++ rest) none []) = _
    rw [outcome_cursor, outcome_readPayload_embedded (formed.head _ rfl)]
    rfl
  | array framing items =>
    have each : ∀ item ∈ items, item.Formed := fun item member => (wellFormed.child member).formed
    have elements (framing' : Framing) (items' : List Item)
        (same : (Body.array framing items : Body Item) = .array framing' items') :
        TakesItems .list (readElements config (readByte config)) (ItemReader.elements (ItemReader.byte config))
          framing' items' ∧ ∀ item ∈ items', item.Formed := by
      cases same
      exact ⟨takesItems_elements each fun item member => followsAt_readByte (each item member), each⟩
    have inside := outcome_enclosed_array config rfl formed.head elements own rest
    simp only [Item.body_mk] at inside
    simp only [Body.major, outcome_map, inside]
    cases ItemReader.arrayed config .list (ItemReader.elements (ItemReader.byte config)) own
      (.array framing items) <;> rfl
  | unsigned | negative | text | map | simple => rfl

theorem follows_readBytes : Follows (readBytes config) (ItemReader.bytes config) :=
  fun _ readable => followsAt_readBytes readable.wellFormed

theorem follows_readBytesSlice : Follows (readBytesSlice config) (ItemReader.bytesSlice config) := by
  refine follows_readBytes.andThen fun payload decoder => ?_
  simp only [outcome_ite]
  split <;> rfl

theorem readSequence_eq (ofBytes : Bytes → Except Error (List Value))
    (ofElements : OpenStructure → DecodeM (List Value × OpenStructure)) :
    readSequence config ofBytes ofElements = readHeader config >>= fun opening =>
      if opening.1.major = .bytes then do
        let payload ← cursor (Cursor.readPayload opening.1)
        ofExcept (ofBytes payload.bytes)
      else enclosed config .list ofElements opening := rfl

theorem follows_readSequence {ofBytes : Bytes → Except Error (List Value)}
    {ofElements : OpenStructure → DecodeM (List Value × OpenStructure)}
    {ofItems : List Item → Except Error (List Value × List Item)}
    (follows : FollowsItems .list ofElements ofItems) :
    Follows (readSequence config ofBytes ofElements) (ItemReader.sequence config ofBytes ofItems) := by
  rw [readSequence_eq]
  rintro ⟨tags, body⟩ readable
  have known : body.header.major = body.major := Body.header_major readable.formed.head
  refine FollowsAt.behindTags readable.formed fun own rest => ?_
  have inside := follows.enclosed config rfl readable own rest
  change outcome (if body.header.major = .bytes then _ else _) (Decoder.mk _ none []) = _
  rw [known, outcome_ite]
  cases body with
  | bytes form =>
    have payload := @Cursor.outcome_readPayload .bytes form readable.formed.chunks (fun _ => rfl) rest
    change outcome (cursor (Cursor.readPayload (openingHeader .bytes form.head?)) >>= _)
      (Decoder.mk (form.body .bytes ++ rest) none []) = _
    simp only [outcome_bind, outcome_cursor, payload, ok_map, ok_bind, outcome_ofExcept]
    rfl
  | embedded width item =>
    have payload := outcome_readPayload_embedded (readable.formed.head _ rfl) rest
    change outcome (cursor (Cursor.readPayload (Body.embedded width item).header) >>= _)
      (Decoder.mk (item.bytes ++ rest) none []) = _
    simp only [outcome_bind, outcome_cursor, payload, ok_map, ok_bind, outcome_ofExcept]
    rfl
  | unsigned | negative | text | array | map | simple => exact inside

theorem follows_readMany {slot : Slot (DecodeM Value)} {told : Slot (ItemReader Value)}
    (follows : slot.Follows told) : Follows (readMany config slot) (ItemReader.many config told) := by
  unfold readMany ItemReader.many
  rw [follows.ofByte]
  exact follows_readSequence (follows_elements follows.read config)

theorem follows_fill {expected : String} {slots : List (Slot (DecodeM Value))}
    {told : List (Slot (ItemReader Value))} (follows : List.Forall₂ Slot.Follows slots told) :
    FollowsItems .list (fillFromElements config expected 0 slots) (ItemReader.fill expected 0 told) :=
  fun _ _ readable => ⟨outcome_fillFromElements follows readable (Nat.le_refl _) 0,
    fun _ _ found _ => ItemReader.mem_of_fill found⟩

theorem fillFromBytes_eq {slots : List (Slot (DecodeM Value))} {told : List (Slot (ItemReader Value))}
    (follows : List.Forall₂ Slot.Follows slots told) (expected : String) (filled : Nat)
    (bytes : Bytes) : fillFromBytes expected filled slots bytes = fillFromBytes expected filled told bytes := by
  induction follows generalizing filled bytes with
  | nil => rfl
  | cons here _ ih => cases bytes <;> simp [fillFromBytes, here.ofByte, ih]

theorem follows_readTuple {expected : String} {slots : List (Slot (DecodeM Value))}
    {told : List (Slot (ItemReader Value))} (follows : List.Forall₂ Slot.Follows slots told) :
    Follows (readTuple config expected slots) (ItemReader.tuple config expected told) := by
  have same : tupleOfBytes expected slots = tupleOfBytes expected told := by
    funext bytes
    unfold tupleOfBytes
    rw [fillFromBytes_eq follows, follows.length_eq]
  unfold readTuple ItemReader.tuple
  rw [same]
  exact follows_readSequence (follows_fill follows)

theorem takesEntries_entries {key value : DecodeM Value} {toldKey toldValue : ItemReader Value}
    {entries : List (Item × Item)} (formed : ∀ entry ∈ entries, entry.1.Formed ∧ entry.2.Formed)
    (each : ∀ entry ∈ entries, FollowsAt key toldKey entry.1 ∧ FollowsAt value toldValue entry.2) :
    TakesEntries .map (readEntries config key value) (ItemReader.entries toldKey toldValue) framing
      entries := by
  intro rest
  refine ⟨2 * entries.length, ?_⟩
  have enough := Nat.lt_succ_of_le (length_entries_le_within framing entries rest)
  have taken := outcome_entryRounds config framing formed each
    (by rw [length_flattened]; omega) (Nat.le_refl _) rest enough
  simp only [readEntries, outcome_bind, outcome_get, ok_bind]
  simpa [standing, Shape.units, length_flattened, Shape.map, Shape.kind] using taken

theorem readMap_eq (key value : DecodeM Value) : readMap config key value =
    readHeader config >>= enclosed config .map (readEntries config key value) := by
  simp only [readMap, beginStructure, bind_assoc]
  rfl

theorem follows_readMap {key value : DecodeM Value} {toldKey toldValue : ItemReader Value}
    (followsKey : Follows key toldKey) (followsValue : Follows value toldValue) :
    Follows (readMap config key value) (ItemReader.map config toldKey toldValue) := by
  rw [readMap_eq]
  intro item readable
  refine FollowsAt.behindTags readable.formed fun own rest => ?_
  refine FollowsEntries.enclosed (fun framing entries readable => ?_) config rfl readable own rest
  exact takesEntries_entries
    (fun entry member => ⟨(readable entry member).1.formed, (readable entry member).2.formed⟩)
    fun entry member => ⟨followsKey _ (readable entry member).1, followsValue _ (readable entry member).2⟩

end

end Decoder
end TypedCbor
