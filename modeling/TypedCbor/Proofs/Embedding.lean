import TypedCbor.Proofs.Prefixes
import TypedCbor.Proofs.Unelided

namespace TypedCbor

-- One byte string whose length is given in advance, behind tags.
structure Embeds (tags : List Head) (chunk : Chunk) (input rest : Bytes) : Prop where
  tagsFit : ∀ tag ∈ tags, tag.Fits
  fits : chunk.head.Fits
  spelled : input = tagBytes tags ++ (chunk.bytes .bytes ++ rest)

namespace Decoder

variable {config : Config} {read : DecodeM Value} {tags : List Head} {chunk : Chunk} {decoder : Decoder} {rest : Bytes}

theorem outcome_readEmbedded (embeds : Embeds tags chunk decoder.rest rest) :
    outcome (readEmbedded config read) decoder =
      ItemReader.ownTags config decoder.field (decoder.pendingTags ++ tags.map Head.number) >>= fun _ =>
        (fun value => (.embedded value (some chunk.content), ⟨rest, none, []⟩)) <$> whole read chunk.content := by
  obtain ⟨tagsFit, fits, spelled⟩ := embeds
  have formed : (Item.mk tags (.bytes (.whole chunk))).Formed :=
    Item.formed_of_ordinary (by simp [Body.major]) tagsFit (by simpa [Body.head?, StringForm.head?] using fits)
      (by simpa [Body.chunks, StringForm.chunks] using fits)
  have follows := @followsAt_readEmbedded config read _ formed decoder.field decoder.pendingTags rest
  have input : (Item.mk tags (.bytes (.whole chunk))).bytes ++ rest = decoder.rest := by
    rw [spelled, Item.bytes_eq, List.append_assoc]
    rfl
  rw [input] at follows
  refine follows.trans ?_
  change _ <$> (ItemReader.ownTags config decoder.field (decoder.pendingTags ++ tags.map Head.number) >>= fun _ =>
    (fun value => Value.embedded value (some chunk.content)) <$> whole read chunk.content) = _
  cases ItemReader.ownTags config decoder.field (decoder.pendingTags ++ tags.map Head.number) with
  | error e => rfl
  | ok own => cases whole read chunk.content <;> rfl

theorem embeds_of_readEmbedded {value : Value} {after : Decoder}
    (found : outcome (readEmbedded config read) decoder = .ok (value, after)) :
    ∃ tags chunk, Embeds tags chunk decoder.rest after.rest := by
  obtain ⟨⟨header, _⟩, plain, found⟩ := bind_eq_ok.mp (outcome_bind .. ▸ found)
  obtain ⟨⟨⟨header, own⟩, between⟩, opened, same⟩ := bind_eq_ok.mp (outcome_bind .. ▸ plain)
  cases same
  obtain ⟨tags, head?, tagsFit, fits, -, -, same, spelled⟩ := opening_of_readHeader opened
  dsimp only at found
  split at found
  · rename_i bytes
    rw [same, bytes] at found
    cases head? with
    | none => cases found
    | some head =>
      obtain ⟨⟨content, _⟩, taken, found⟩ := bind_eq_ok.mp (outcome_bind .. ▸ found)
      obtain ⟨rest, took, rfl⟩ := rest_of_cursor taken
      obtain ⟨⟨inner, _⟩, inside, same⟩ := bind_eq_ok.mp (outcome_bind .. ▸ found)
      cases same
      obtain ⟨_, -, same⟩ := map_eq_ok.mp (outcome_ofExcept .. ▸ inside)
      cases same
      obtain ⟨length, between⟩ := Cursor.eq_of_take took
      have here : (Chunk.mk head.width content).head = head := by
        rw [Chunk.head, length, (fits head rfl).toNat_number]
      refine ⟨tags, ⟨head.width, content⟩, tagsFit, here ▸ fits head rfl, ?_⟩
      rw [spelled, bytes, between, Chunk.bytes, here, List.append_assoc]
      rfl
  · cases found

end Decoder

section
variable {config : Config} {type : Ty}

theorem Decoder.outcome_embedded_eq_ok {decoder after : Decoder} {value : Value} :
    outcome ((Ty.embedded type).read config) decoder = .ok (value, after) ↔
      ∃ tags chunk own inner, Embeds tags chunk decoder.rest after.rest ∧
        ItemReader.ownTags config decoder.field (decoder.pendingTags ++ tags.map Head.number) = .ok own ∧
        config.decode type chunk.content = .ok inner ∧ value = .embedded inner (some chunk.content) ∧
        after = ⟨after.rest, none, []⟩ := by
  constructor
  · intro found
    obtain ⟨tags, chunk, embeds⟩ := embeds_of_readEmbedded found
    rw [Ty.read, outcome_readEmbedded embeds] at found
    obtain ⟨own, clear, found⟩ := bind_eq_ok.mp found
    obtain ⟨inner, inside, same⟩ := map_eq_ok.mp found
    obtain ⟨here, behind⟩ := Prod.mk.inj same
    exact ⟨tags, chunk, own, inner, embeds, clear, inside, here.symm, behind.symm⟩
  · rintro ⟨tags, chunk, own, inner, embeds, clear, inside, rfl, same⟩
    replace inside : whole (type.read config) chunk.content = .ok inner := inside
    rw [Ty.read, outcome_readEmbedded embeds, clear, ok_bind, inside, ok_map, ← same]

theorem Config.decode_embedded_eq_ok {input : Bytes} {value : Value} :
    config.decode (.embedded type) input = .ok value ↔
      ∃ tags chunk inner, Embeds tags chunk input [] ∧ config.decode type chunk.content = .ok inner ∧
        value = .embedded inner (some chunk.content) := by
  constructor
  · intro accepted
    obtain ⟨after, ran, nothing⟩ := Decoder.outcome_of_whole accepted
    obtain ⟨tags, chunk, own, inner, embeds, -, inside, same, -⟩ := Decoder.outcome_embedded_eq_ok.mp ran
    rw [nothing] at embeds
    exact ⟨tags, chunk, inner, embeds, inside, same⟩
  · rintro ⟨tags, chunk, inner, embeds, inside, same⟩
    have ran : outcome ((Ty.embedded type).read config) { rest := input } = .ok (value, ⟨[], none, []⟩) :=
      Decoder.outcome_embedded_eq_ok.mpr ⟨tags, chunk, _, inner, embeds, rfl, inside, same, rfl⟩
    exact Decoder.whole_of_outcome ran rfl

end

namespace Value

variable {config : Config} (value : Value) (serialized : Option Bytes)

theorem alone_embedded (markers : Markers) :
    (Value.embedded value serialized).alone config markers = Wire.bytes <$> config.encode value := by
  rw [alone_of_plain config (by simp), composed, Config.encode_eq_alone]

theorem encode_embedded (encoder : Encoder) :
    (Value.embedded value serialized).encode config encoder =
      (fun payload => encoder.put (Wire.bytes payload)) <$> config.encode value := by
  rw [Encoder.composes config, alone_embedded]
  cases config.encode value <;> rfl

end Value

theorem embeds_bytes {payload : Bytes} (small : payload.length < 2 ^ 64) :
    Embeds [] ⟨.narrowest payload.length, payload⟩ (Wire.bytes payload) [] := by
  refine ⟨by simp, Width.narrowest_holds small, ?_⟩
  have opening := (Head.made_shortest small).wire .bytes
  rw [List.append_nil]
  exact congrArg (· ++ payload) opening

-- A wrapped value is read from one byte string of known length, wherever that stands and behind whatever tags are
-- accepted there, and is what its bytes are as a document of their own, all of them. It is written as the string of
-- the document that the value is, in any structure and for any field, whatever bytes it was read from.
theorem Config.embeds_documents (config : Config) (type : Ty) :
    (∀ (decoder after : Decoder) (value : Value),
      outcome ((Ty.embedded type).read config) decoder = .ok (value, after) ↔
        ∃ tags chunk own inner, Embeds tags chunk decoder.rest after.rest ∧
          ItemReader.ownTags config decoder.field (decoder.pendingTags ++ tags.map Head.number) = .ok own ∧
          config.decode type chunk.content = .ok inner ∧ value = .embedded inner (some chunk.content) ∧
          after = ⟨after.rest, none, []⟩) ∧
    (∀ (input : Bytes) (value : Value), config.decode (.embedded type) input = .ok value ↔
      ∃ tags chunk inner, Embeds tags chunk input [] ∧ config.decode type chunk.content = .ok inner ∧
        value = .embedded inner (some chunk.content)) ∧
    (∀ (tags : List Head) (width : Width) (payload more rest : Bytes) (inner : Value) (decoder : Decoder)
      (own : List UInt64), config.decode type payload = .ok inner → more ≠ [] →
      Embeds tags ⟨width, payload ++ more⟩ decoder.rest rest →
      ItemReader.ownTags config decoder.field (decoder.pendingTags ++ tags.map Head.number) = .ok own →
      outcome ((Ty.embedded type).read config) decoder = .error (.trailingData more.length)) ∧
    (∀ (value : Value) (serialized : Option Bytes) (encoder : Encoder),
      (Value.embedded value serialized).encode config encoder =
        (fun payload => encoder.put (Wire.bytes payload)) <$> config.encode value) ∧
    (∀ (shape : Shape) (element : Element) (value : Value) (serialized : Option Bytes) (outer : Encoder)
      (bytes : Bytes) (count : Nat),
      (outer.inside bytes count).field config shape element ((Value.embedded value serialized).encode config) =
        (fun payload =>
          match element.part config shape (Wire.bytes payload) with
          | none => outer.inside bytes count
          | some part => outer.inside (bytes ++ part) (count + 1)) <$> config.encode value) ∧
    ∀ payload : Bytes, payload.length < 2 ^ 64 →
      Embeds [] ⟨.narrowest payload.length, payload⟩ (Wire.bytes payload) [] := by
  refine ⟨fun _ _ _ => Decoder.outcome_embedded_eq_ok, fun _ _ => decode_embedded_eq_ok, ?_,
    fun value serialized => value.encode_embedded serialized, ?_, fun _ => embeds_bytes⟩
  · intro tags width payload more rest inner decoder own inside some embeds clear
    have trailing : Decoder.whole (type.read config) (payload ++ more) = .error (.trailingData more.length) :=
      (type.delimits.takes (.refl config)).extended inside some
    rw [Ty.read, Decoder.outcome_readEmbedded embeds, clear, ok_bind, trailing, error_map]
  · intro shape element value serialized outer bytes count
    rw [Encoder.field_composes (Encoder.composes config _), Value.alone_embedded]
    cases config.encode value <;> rfl

def Element.protectedHeader : Element := { name := "protected", valueTags := [24], byteString := true, object := true }

theorem Config.embeds_twice :
    outcome ((Ty.embedded (.embedded (.option .bool))).read (.standard .fixed))
        ⟨[0xd8, 0x18, 0x42, 0x41, 0xf6, 0x00], some .protectedHeader, []⟩ =
      .ok (.embedded (.embedded .none (some [0xf6])) (some [0x41, 0xf6]), ⟨[0x00], none, []⟩) ∧
    outcome ((Ty.embedded .bool).read (.standard .fixed))
        ⟨[0x58, 0x02, 0xf5, 0xf5], some .protectedHeader, [24]⟩ = .error (.trailingData 1) ∧
    (Value.embedded (.embedded .none (some [])) none).encode (.standard .fixed) ⟨[], [⟨[0x07], 1⟩], ⟨true, true⟩⟩ =
      .ok ⟨[], [⟨[0x07, 0x42, 0x41, 0xf6], 1⟩], {}⟩ := by
  obtain ⟨read, -, -, written, -⟩ := embeds_documents (.standard .fixed) (.embedded (.option .bool))
  obtain ⟨-, -, refused, -⟩ := embeds_documents (.standard .fixed) .bool
  refine ⟨?_, ?_, written _ _ _⟩
  · exact (read _ ⟨[0x00], none, []⟩ _).mpr ⟨[⟨.one, 24⟩], ⟨.immediate, [0x41, 0xf6]⟩, [], _,
      ⟨by decide, by decide, rfl⟩, rfl, rfl, rfl, rfl⟩
  · exact refused [] .one [0xf5] [0xf5] [] (.bool true) _ [] rfl (by decide) ⟨by decide, by decide, rfl⟩ rfl

end TypedCbor
