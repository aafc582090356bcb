import TypedCbor.Document
import TypedCbor.Proofs.ItemReader.Named
import TypedCbor.Proofs.Ty

namespace TypedCbor

namespace Body

theorem visitItems_eq (items : List Item) : visitItems items = items.mapM visitItem := by
  induction items with
  | nil => rfl
  | cons item items ih => simp only [visitItems, ih, List.mapM_cons]

end Body

namespace ItemReader

theorem any_on (config : Config) : (any config).on none = Body.visitItem := by
  funext item
  rcases item with ⟨tags, body⟩
  rfl

theorem entries_any (config : Config) (items : List (Item × Item)) :
    entries (any config) (any config) items = Body.visitEntries items := by
  induction items with
  | nil => rfl
  | cons entry items ih =>
    rcases entry with ⟨key, value⟩
    rw [entries_cons, ih, any_on, Body.visitEntries]
    rfl

end ItemReader

namespace Decoder

variable {config : Config}

theorem readGeneric_succ (rounds : Nat) : readGeneric config (rounds + 1) =
    readHeader config >>= fun opening =>
      match opening.1.major with
      | .unsigned | .negative => integerVisit <$> ofExcept opening.1.integer
      | .bytes => bytesVisit <$> cursor (Cursor.readPayload opening.1)
      | .text => do return textVisit (← ofExcept (← cursor (Cursor.readPayload opening.1)).text)
      | .array => (.visited (.seq opening.1.length) ∘ .seq) <$>
          enclosed config .list (readElements config (readGeneric config rounds)) opening
      | .map => (.visited (.map opening.1.length) ∘ .map) <$>
          enclosed config .map
            (readEntries config (readGeneric config rounds) (readGeneric config rounds)) opening
      | .simple => ofExcept (readSimple opening.1)
      | .tag => throw (.malformedHeader opening.1.initial) := by
  rw [readGeneric]
  congr
  funext opening
  rcases opening with ⟨header, own⟩
  simp only [map_enclosed]
  rfl

theorem followsAt_readGeneric {item : Item} (wellFormed : item.WellFormed) {rounds : Nat}
    (enough : item.bytes.length ≤ rounds) :
    FollowsAt (readGeneric config rounds) (ItemReader.any config) item := by
  induction wellFormed generalizing rounds with
  | @intro item formed inside ih =>
    have positive := item.length_bytes_pos
    obtain ⟨rounds, rfl⟩ : ∃ n, rounds = n + 1 := ⟨rounds - 1, by omega⟩
    have each (child : Item) (member : child ∈ item.body.children) :
        FollowsAt (readGeneric config rounds) (ItemReader.any config) child := by
      have smaller := Item.length_lt_of_mem_children member
      exact ih child member (by omega)
    have formedEach (child : Item) (member : child ∈ item.body.children) : child.Formed :=
      Item.WellFormed.formed (inside child member)
    rw [readGeneric_succ]
    rcases item with ⟨tags, body⟩
    have known : body.header.major = body.major := Body.header_major formed.head
    refine FollowsAt.behindTags formed fun own rest => ?_
    simp only [Item.body_mk, known] at each formedEach ⊢
    cases body with
    | unsigned head | negative head =>
      simp only [Body.major, outcome_map, outcome_ofExcept, Body.visit, Functor.map_map]
      rfl
    | simple head => exact outcome_ofExcept _ _
    | bytes form =>
      have payload := @Cursor.outcome_readPayload .bytes form formed.chunks (fun _ => rfl) rest
      change outcome (bytesVisit <$> cursor (Cursor.readPayload (openingHeader .bytes form.head?)))
        (Decoder.mk (form.body .bytes ++ rest) none []) = _
      rw [outcome_map, outcome_cursor, payload]
      rfl
    | embedded width item =>
      have payload := outcome_readPayload_embedded (formed.head _ rfl) rest
      change outcome (bytesVisit <$> cursor (Cursor.readPayload (Body.embedded width item).header))
        (Decoder.mk (item.bytes ++ rest) none []) = _
      rw [outcome_map, outcome_cursor, payload]
      rfl
    | text form =>
      have payload := @Cursor.outcome_readPayload .text form formed.chunks (fun _ => rfl) rest
      change outcome (cursor (Cursor.readPayload (openingHeader .text form.head?)) >>= _)
        (Decoder.mk (form.body .text ++ rest) none []) = _
      simp only [outcome_bind, outcome_cursor, payload, ok_map, ok_bind, outcome_ofExcept, Body.visit]
      cases Payload.text ⟨form.content, form.isWhole⟩ <;> rfl
    | array framing items =>
      have length : (Body.array framing items).header.length = framing.announced items.length :=
        Framing.length_openingHeader formed.head
      have taken : TakesItems .list (readElements config (readGeneric config rounds))
          (ItemReader.any config).elements framing items := takesItems_elements formedEach each
      have enclosed := @outcome_enclosed_array _ config .list _ _ _ rfl formed.head
        (fun framing' items' same => by cases same; exact ⟨taken, formedEach⟩) own rest
      simp only [Item.body_mk] at enclosed
      rw [ItemReader.arrayed_elements config known, ItemReader.any_on, ← Body.visitItems_eq] at enclosed
      simp only [Body.major, outcome_map, enclosed, length, Body.visit, Functor.map_map]
    | map framing entries =>
      have length : (Body.map framing entries).header.length = framing.announced entries.length :=
        Framing.length_openingHeader formed.head
      have bothEach (entry : Item × Item) (member : entry ∈ entries) :
          entry.1 ∈ (Body.map framing entries).children ∧
            entry.2 ∈ (Body.map framing entries).children :=
        ⟨mem_flattened.mpr ⟨entry, member, .inl rfl⟩, mem_flattened.mpr ⟨entry, member, .inr rfl⟩⟩
      have taken : TakesEntries .map
          (readEntries config (readGeneric config rounds) (readGeneric config rounds))
          (ItemReader.entries (ItemReader.any config) (ItemReader.any config)) framing entries :=
        takesEntries_entries
          (fun entry member => ⟨formedEach _ (bothEach entry member).1,
            formedEach _ (bothEach entry member).2⟩)
          fun entry member => ⟨each _ (bothEach entry member).1, each _ (bothEach entry member).2⟩
      have enclosed := @outcome_enclosed_map _ config .map _ _ _ rfl formed.head
        (fun framing' entries' same => by cases same; exact taken) own rest
      simp only [Item.body_mk] at enclosed
      rw [ItemReader.mapped_map config known, ItemReader.entries_any] at enclosed
      simp only [Body.major, outcome_map, enclosed, length, Body.visit, Functor.map_map]

theorem follows_readAny : Follows (readAny config) (ItemReader.any config) := by
  intro item readable field pending rest
  simp only [readAny, outcome_bind, outcome_get, ok_bind]
  exact followsAt_readGeneric readable.wellFormed (by simp only [List.length_append]; omega) _ _ _

theorem whole_eq (read : DecodeM α) (input : Bytes) :
    whole read input = Prod.fst <$> outcome (do let a ← read; finish; return a) { rest := input } := by
  unfold whole outcome
  split <;> simp_all

theorem whole_bytes {read : DecodeM α} {told : ItemReader α} {item : Item}
    (follows : FollowsAt read told item) : whole read item.bytes = told.on none item := by
  have done := follows none [] []
  rw [List.append_nil, List.nil_append] at done
  rw [whole_eq, outcome_bind, done]
  change _ = told none item.tagNumbers item.body
  cases told none item.tagNumbers item.body <;> rfl

theorem follows_slots {types : List Ty}
    (each : ∀ type ∈ types, Follows (type.read config) (type.ofItem config)) :
    List.Forall₂ Slot.Follows (slots config types) (itemSlots config types) := by
  induction types with
  | nil => exact .nil
  | cons type types ih =>
    obtain ⟨here, each⟩ := List.forall_mem_cons.mp each
    exact .cons ⟨here, rfl⟩ (ih each)

theorem follows_fieldReaders {fields : List (Field Ty)}
    (each : ∀ field ∈ fields, Follows (field.type.read config) (field.type.ofItem config)) :
    List.Forall₂ FieldReader.Follows (fieldReaders config fields) (itemFields config fields) := by
  induction fields with
  | nil => exact .nil
  | cons field fields ih =>
    obtain ⟨here, each⟩ := List.forall_mem_cons.mp each
    exact .cons ⟨rfl, here, rfl, rfl⟩ (ih each)

theorem follows_contentReader (regular : config.Regular) {content : Content Ty}
    (each : ∀ type ∈ content.parts, Follows (type.read config) (type.ofItem config))
    (parent name : String) :
    ContentReader.Follows (contentReader config parent name content)
      (itemContent config parent name content) := by
  cases content with
  | unit => exact .unit
  | newtype type => exact .content (each type (by simp [Content.parts]))
  | tuple types => exact .content ((follows_readTuple (follows_slots each)).map _)
  | record fields =>
    exact .content (follows_readRecord regular
      (follows_fieldReaders fun field member => each _ (List.mem_map_of_mem member)) _ _)

theorem follows_variantReaders (regular : config.Regular) {variants : List (Variant Ty)}
    (each : ∀ variant ∈ variants, ∀ type ∈ variant.content.parts,
      Follows (type.read config) (type.ofItem config)) (parent : String) :
    List.Forall₂ VariantReader.Follows (variantReaders config parent variants)
      (itemVariants config parent variants) := by
  induction variants with
  | nil => exact .nil
  | cons variant variants ih =>
    obtain ⟨here, each⟩ := List.forall_mem_cons.mp each
    exact .cons ⟨rfl, follows_contentReader regular here parent variant.name⟩ (ih each)

theorem follows_read (regular : config.Regular) (type : Ty) :
    Follows (type.read config) (type.ofItem config) := by
  induction type using Ty.induction with
  | step type ih =>
    cases type with
    | bool => exact follows_readBool.map _
    | int kind => exact follows_readInt kind
    | single => exact follows_readFloat.map _
    | double => exact follows_readFloat.map _
    | char => exact follows_readChar
    | text => exact follows_readText.map _
    | textSlice => exact follows_readTextSlice
    | bytes => exact follows_readBytes.map _
    | bytesSlice => exact follows_readBytesSlice
    | unit | unitStruct => exact follows_readUnit
    | option type => exact follows_readOption (ih type (by simp [Ty.parts]))
    | seq type => exact (follows_readMany ⟨ih type (by simp [Ty.parts]), rfl⟩).map _
    | tuple types | tupleStruct _ types => exact (follows_readTuple (follows_slots ih)).map _
    | newtype _ type => exact (ih type (by simp [Ty.parts])).map _
    | map key value =>
      exact (follows_readMap (ih key (by simp [Ty.parts])) (ih value (by simp [Ty.parts]))).map _
    | record name fields =>
      exact follows_readRecord regular
        (follows_fieldReaders fun field member => ih _ (Ty.mem_parts_record member)) _ _
    | enumeration name variants =>
      exact follows_readVariant (follows_variantReaders regular
        (fun variant member type inside => ih type (Ty.mem_parts_enumeration member inside)) name)
    | embedded type => exact follows_readEmbedded _
    | delayed type => exact ih (type ()) (by simp [Ty.parts])
    | any => exact follows_readAny
    | identifier => exact follows_readText.map _
    | ignored => exact follows_readIgnored

end Decoder

-- Decoding a document that is one item, in terms of the item alone.
theorem Config.decode_bytes {config : Config} (regular : config.Regular) (type : Ty) {item : Item}
    (readable : item.Readable) : config.decode type item.bytes = (type.ofItem config).on none item :=
  Decoder.whole_bytes (Decoder.follows_read regular type item readable)

end TypedCbor
