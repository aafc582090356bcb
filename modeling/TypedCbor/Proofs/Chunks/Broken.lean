import TypedCbor.Proofs.Acceptance.Scalars
import TypedCbor.Proofs.Places.Tags
import TypedCbor.Proofs.Rechunked.Structures

namespace TypedCbor

open Decoder

def Chunked (major : Major) (inside : Bytes) : Prop :=
  ∃ (chunks : List Chunk) (after : Bytes), (∀ chunk ∈ chunks, chunk.head.Fits) ∧
    inside = chunks.flatMap (Chunk.bytes major) ++ (Wire.closing ++ after)

-- A string of open length that is anything else, behind its tags.
inductive BrokenString : Bytes → Prop where
  | intro {tags : List Head} {major : Major} {inside : Bytes} (fit : ∀ tag ∈ tags, tag.Fits) (string : major.IsString)
      (broken : ¬ Chunked major inside) : BrokenString (tagBytes tags ++ (openingBytes major none ++ inside))

-- Where the parts of an item stand, at any depth, if what is in front of them is well-formed.
inductive Nested : Bytes → Bytes → Prop where
  | here {rest : Bytes} : Nested rest rest
  | part {tags : List Head} {major : Major} {head? : Option Head} {items : List Item} {rest inner : Bytes}
      (tagsFit : ∀ tag ∈ tags, tag.Fits) (fits : ∀ head ∈ head?, head.Fits) (compound : major = .array ∨ major = .map)
      (each : ∀ item ∈ items, item.WellFormed) (fewer : ∀ head ∈ head?, major.units items.length < head.n)
      (more : Nested rest inner) :
      Nested (tagBytes tags ++ (openingBytes major head? ++ (itemsBytes items ++ rest))) inner

theorem chunked_iff {major : Major} (string : major.IsString) {inside : Bytes} : Chunked major inside ↔
    ∃ payload rest, outcome (Cursor.readPayload (openingHeader major none)) inside = .ok (payload, rest) := by
  constructor
  · rintro ⟨chunks, after, fit, rfl⟩
    rw [← List.append_assoc]
    exact ⟨_, _, @Cursor.outcome_readPayload major (.chunked chunks) fit string.opens after⟩
  · rintro ⟨payload, rest, read⟩
    obtain ⟨form, opens, fit, spelled⟩ :=
      @Cursor.form_of_readPayload major none _ _ _ nofun (openHeader_major major) read
    cases form with
    | whole => cases opens
    | chunked chunks => exact ⟨chunks, rest, fit, spelled.trans (List.append_assoc ..)⟩

theorem Opening.ne_closing {tags : List Head} {major : Major} {head? : Option Head} (opening : Opening tags major head?)
    (closed : major = .simple → head?.isSome) (rest after : Bytes) :
    tagBytes tags ++ (openingBytes major head? ++ rest) ≠ Wire.closing ++ after := by
  intro same
  obtain ⟨byte, more, spelled, other⟩ := opening.bytes_eq_cons closed rest
  rw [spelled] at same
  exact other (List.cons.inj same).1

theorem Opening.ofString {tags : List Head} {major : Major} (fit : ∀ tag ∈ tags, tag.Fits) (string : major.IsString) :
    Opening tags major none :=
  ⟨fit, nofun, string.opens, by rcases string with rfl | rfl <;> nofun⟩

section
variable {item other : Item} {left right : Bytes}

theorem Item.WellFormed.rest_eq (wellFormed : item.WellFormed) (wellFormed' : other.WellFormed)
    (same : item.bytes ++ left = other.bytes ++ right) : left = right := by
  obtain ⟨outline, sound, -, spelled⟩ := wellFormed.exists_outline
  obtain ⟨outline', sound', -, spelled'⟩ := wellFormed'.exists_outline
  rw [← spelled, ← spelled'] at same
  exact (sound.eq_of_bytes sound' same).2

theorem Item.Formed.opening (formed : item.Formed) : Opening item.tags item.body.major item.body.head? :=
  ⟨formed.tags, formed.head, Body.hasIndefinite_of_open, item.body.major_ne_tag⟩

theorem Item.bytes_append (item : Item) (rest : Bytes) : item.bytes ++ rest =
    tagBytes item.tags ++ (openingBytes item.body.major item.body.head? ++ (item.body.content ++ rest)) := by
  rw [item.bytes_eq, bodyBytes_eq]
  simp only [List.append_assoc]

theorem Item.Formed.chunked (formed : item.Formed) (string : item.body.major.IsString) (opens : item.body.head? = none)
    (rest : Bytes) : Chunked item.body.major (item.body.content ++ rest) := by
  have chunks := formed.chunks
  rcases item with ⟨tags, body⟩
  dsimp only [Item.body_mk] at *
  cases body with
  | bytes form | text form =>
    cases form with
    | whole => cases opens
    | chunked parts => exact ⟨parts, rest, chunks, List.append_assoc ..⟩
  | embedded => cases opens
  | _ => rcases string with same | same <;> cases same

theorem Item.Formed.not_broken (formed : item.Formed) (rest : Bytes) : ¬ BrokenString (item.bytes ++ rest) := by
  intro found
  generalize spelled : item.bytes ++ rest = input at found
  obtain ⟨fit, string, broken⟩ := found
  rw [item.bytes_append] at spelled
  obtain ⟨-, known, opens, rfl⟩ := formed.opening.eq_of_bytes (.ofString fit string) spelled
  subst known
  exact broken (formed.chunked string opens rest)

theorem Item.Formed.not_closing (formed : item.Formed) (rest after : Bytes) :
    item.bytes ++ rest ≠ Wire.closing ++ after := by
  rw [item.bytes_append]
  exact formed.opening.ne_closing Body.isSome_of_simple _ after

theorem item_behind {items others : List Item} {framing : Framing} {after : Bytes}
    (each : ∀ item ∈ items, item.WellFormed) (each' : ∀ other ∈ others, other.WellFormed)
    (same : itemsBytes items ++ left = itemsBytes others ++ (framing.closing ++ after))
    (fewer : framing ≠ .delimited → items.length < others.length) (goesOn : ∀ after, left ≠ Wire.closing ++ after) :
    ∃ (item : Item) (rest : Bytes), item.WellFormed ∧ left = item.bytes ++ rest := by
  induction items generalizing others with
  | nil =>
    cases others with
    | nil =>
      cases framing with
      | counted => exact absurd (fewer nofun) (Nat.lt_irrefl _)
      | delimited => exact absurd same (goesOn after)
    | cons next others =>
      exact ⟨next, _, each' next List.mem_cons_self, same.trans (List.append_assoc ..)⟩
  | cons item items ih =>
    obtain ⟨here, each⟩ := List.forall_mem_cons.mp each
    rw [itemsBytes, List.append_assoc] at same
    cases others with
    | nil =>
      cases framing with
      | counted => exact absurd (fewer nofun) (Nat.not_lt_zero _)
      | delimited => exact absurd same (here.formed.not_closing _ _)
    | cons other others =>
      obtain ⟨here', each'⟩ := List.forall_mem_cons.mp each'
      rw [itemsBytes, List.append_assoc] at same
      exact ih each each' (here.rest_eq here' same) fun counted => Nat.lt_of_succ_lt_succ (fewer counted)

theorem Item.WellFormed.parts (wellFormed : item.WellFormed)
    (compound : item.body.major = .array ∨ item.body.major = .map) :
    ∃ (framing : Framing) (others : List Item), (∀ other ∈ others, other.WellFormed) ∧
      item.body.head? = framing.head? (item.body.major.units others.length) ∧
      item.body.content = itemsBytes others ++ framing.closing := by
  have each (child : Item) (member : child ∈ item.body.children) : child.WellFormed := wellFormed.child member
  rcases item with ⟨tags, body⟩
  cases body with
  | array framing items => exact ⟨framing, items, each, rfl, rfl⟩
  | map framing entries =>
    refine ⟨framing, flattened entries, each, ?_, by rw [← entriesBytes_eq]; rfl⟩
    have count : Major.map.units (flattened entries).length = entries.length := by
      rw [Major.units, if_pos rfl, length_flattened, Nat.mul_div_cancel_left _ Nat.two_pos]
    change framing.head? entries.length = framing.head? (Major.map.units (flattened entries).length)
    rw [count]
  | _ => rcases compound with same | same <;> cases same

theorem Opening.ofCompound {tags : List Head} {major : Major} {head? : Option Head} (tagsFit : ∀ tag ∈ tags, tag.Fits)
    (fits : ∀ head ∈ head?, head.Fits) (compound : major = .array ∨ major = .map) : Opening tags major head? := by
  refine ⟨tagsFit, fits, ?_, ?_⟩ <;> rcases compound with rfl | rfl
  · exact fun _ => rfl
  · exact fun _ => rfl
  · exact nofun
  · exact nofun

theorem Nested.ne_closing {input inner : Bytes} (nested : Nested input inner)
    (goesOn : ∀ after, inner ≠ Wire.closing ++ after) (after : Bytes) : input ≠ Wire.closing ++ after := by
  cases nested with
  | here => exact goesOn after
  | part tagsFit fits compound =>
    exact (Opening.ofCompound tagsFit fits compound).ne_closing (by rcases compound with rfl | rfl <;> nofun) _ after

theorem BrokenString.ne_closing {input : Bytes} (broken : BrokenString input) (after : Bytes) :
    input ≠ Wire.closing ++ after := by
  obtain ⟨fit, string, -⟩ := broken
  exact (Opening.ofString fit string).ne_closing (by rcases string with rfl | rfl <;> nofun) _ after

theorem Nested.wellFormed {input inner : Bytes} (nested : Nested input inner)
    (goesOn : ∀ after, inner ≠ Wire.closing ++ after) {item : Item} {after : Bytes} (wellFormed : item.WellFormed)
    (spelled : input = item.bytes ++ after) :
    ∃ (part : Item) (rest : Bytes), part.WellFormed ∧ inner = part.bytes ++ rest := by
  induction nested generalizing item after with
  | here => exact ⟨item, after, wellFormed, spelled⟩
  | @part tags major head? items rest inner tagsFit fits compound each fewer more ih =>
    have opening : Opening tags major head? := .ofCompound tagsFit fits compound
    rw [item.bytes_append] at spelled
    obtain ⟨-, rfl, rfl, same⟩ := opening.eq_of_bytes wellFormed.formed.opening spelled
    obtain ⟨framing, others, each', head, content⟩ := wellFormed.parts compound
    rw [content, List.append_assoc] at same
    have shorter : framing ≠ .delimited → items.length < others.length := by
      intro counted
      cases framing with
      | delimited => exact absurd rfl counted
      | counted width =>
        have less : item.body.major.units items.length < item.body.major.units others.length := fewer ⟨width, _⟩ head
        rw [Major.units, Major.units] at less
        split at less <;> omega
    obtain ⟨next, behind, wellFormed', stands⟩ := item_behind each each' same shorter (more.ne_closing goesOn)
    exact ih goesOn wellFormed' stands

end

-- Readers that take no string of open length with anything but its chunks in it.
def Insists (read : DecodeM α) : Prop :=
  ∀ decoder a after, outcome read decoder = .ok (a, after) → ¬ BrokenString decoder.rest

theorem Insists.map {read : DecodeM α} (insists : Insists read) (f : α → β) : Insists (f <$> read) := by
  intro decoder b after found
  obtain ⟨⟨a, _⟩, inside, -⟩ := map_eq_ok.mp (outcome_map .. ▸ found)
  exact insists decoder a _ inside

theorem Insists.andThen {read : DecodeM α} (insists : Insists read) {next : α → DecodeM β} :
    Insists (read >>= next) := by
  intro decoder b after found
  obtain ⟨⟨a, _⟩, inside, -⟩ := bind_eq_ok.mp (outcome_bind .. ▸ found)
  exact insists decoder a _ inside

namespace Decoder

section
variable {α β : Type} {config : Config}

theorem insists_of_spells {read : DecodeM α} (spells : ∀ decoder, SpellsAt Item.Sound read decoder) : Insists read := by
  intro decoder a after found
  obtain ⟨item, sound, spelled⟩ := spells decoder a after found
  rw [spelled]
  exact sound.wellFormed.formed.not_broken _

theorem header_of_opening {decoder after : Decoder} {tags : List Head} {major : Major} {head? : Option Head}
    {inside : Bytes} {header : Header} {own : List UInt64} (opening : Opening tags major head?)
    (spelled : decoder.rest = tagBytes tags ++ (openingBytes major head? ++ inside))
    (found : outcome (readHeader config) decoder = .ok ((header, own), after)) :
    header = openingHeader major head? ∧ after.rest = inside := by
  obtain ⟨_, _, tagsFit, fits, opens, untagged, same, spelled'⟩ := opening_of_readHeader found
  obtain ⟨-, majors, rfl, rest⟩ := opening.eq_of_bytes ⟨tagsFit, fits, opens, untagged⟩ (spelled.symm.trans spelled')
  exact ⟨by rw [same, majors], rest.symm⟩

theorem insists_behindHeader {next : Header × List UInt64 → DecodeM α}
    (behind : ∀ major own, major.IsString → ∀ inside a after,
      outcome (next (openingHeader major none, own)) inside = .ok (a, after) → Chunked major inside.rest) :
    Insists (readHeader config >>= next) := by
  intro decoder a after found broken
  obtain ⟨⟨⟨header, own⟩, inside⟩, opened, goes⟩ := bind_eq_ok.mp (outcome_bind .. ▸ found)
  generalize spelled : decoder.rest = input at broken
  obtain ⟨fit, string, broken⟩ := broken
  obtain ⟨rfl, rfl⟩ := header_of_opening (.ofString fit string) spelled opened
  exact broken (behind _ own string inside a after goes)

theorem insists_enclosed {shape : Shape} {inside : OpenStructure → DecodeM (α × OpenStructure)} :
    Insists (readHeader config >>= enclosed config shape inside) := by
  refine insists_behindHeader fun major own string inside a after found => ?_
  have known := openHeader_major major
  exact absurd found (enclosed_refuses (known.symm ▸ string) own inside a after)

theorem insists_readSequence {ofBytes : Bytes → Except Error (List Value)}
    {ofElements : OpenStructure → DecodeM (List Value × OpenStructure)} :
    Insists (readSequence config ofBytes ofElements) := by
  rw [readSequence_eq]
  refine insists_behindHeader fun major own string inside values after found => ?_
  have known := openHeader_major major
  dsimp only at found
  rw [known] at found
  rcases string with rfl | rfl
  · rw [if_pos rfl] at found
    obtain ⟨⟨payload, between⟩, taken, -⟩ := bind_eq_ok.mp (outcome_bind .. ▸ found)
    obtain ⟨rest, read, -⟩ := rest_of_cursor taken
    exact (chunked_iff (.inl rfl)).mpr ⟨payload, rest, read⟩
  · rw [if_neg (by decide)] at found
    exact absurd found (enclosed_refuses (.inr known) own inside values after)

theorem brokenString_behindTags {input rest : Bytes} {numbers : List UInt64} (broken : BrokenString input)
    (found : outcome Cursor.readTags input = .ok (numbers, rest)) :
    ∃ (major : Major) (inside : Bytes), major.IsString ∧ ¬ Chunked major inside ∧
      rest = openingBytes major none ++ inside := by
  obtain @⟨tags, major, inside, fit, string, broken⟩ := broken
  have stops : Major.ofInitial (openingHeader major none).initial ≠ .tag := by
    rcases string with rfl | rfl <;> decide
  have read := Cursor.outcome_readTags fit stops ((openingBytes major none).tail ++ inside)
  rw [← List.cons_append, ← openingBytes_eq_cons, found] at read
  cases read
  exact ⟨major, inside, string, broken, rfl⟩

theorem insists_behindAhead {next : Unit → DecodeM α} (behind : Insists (next ())) : Insists (readAhead >>= next) := by
  intro decoder a after found broken
  obtain ⟨⟨⟨⟩, between⟩, ahead, goes⟩ := bind_eq_ok.mp (outcome_bind .. ▸ found)
  obtain ⟨⟨numbers, tagged⟩, read, same⟩ := bind_eq_ok.mp (outcome_bind .. ▸ ahead)
  obtain ⟨rest, readTags, rfl⟩ := rest_of_cursor read
  cases same
  obtain ⟨major, inside, string, broken, spelled⟩ := brokenString_behindTags broken readTags
  refine behind _ a after goes ?_
  change BrokenString rest
  rw [spelled]
  exact @BrokenString.intro [] major inside nofun string broken

theorem insists_readText : Insists (readText config) := insists_of_spells spellsAt_readText

theorem insists_readVariant {variants : List (VariantReader (DecodeM Value))} :
    Insists (readVariant config variants) := by
  refine insists_behindAhead fun decoder value after found => ?_
  obtain ⟨⟨major, _⟩, looked, found⟩ := bind_eq_ok.mp (outcome_bind .. ▸ found)
  obtain ⟨rest, peeked, rfl⟩ := rest_of_cursor looked
  obtain ⟨rfl, -⟩ := Cursor.eq_of_peekMajor peeked
  cases major with
  | text => exact insists_readText.andThen decoder value after found
  | array =>
    change outcome (readVariantPair config variants) decoder = _ at found
    rw [readVariantPair_eq] at found
    exact insists_enclosed decoder value after found
  | _ => cases found

theorem chunked_of_readKey {major : Major} (string : major.IsString) {inside rest : Bytes} {key : Key}
    (found : outcome readKey (openingBytes major none ++ inside) = .ok (key, rest)) : Chunked major inside := by
  have known := openHeader_major major
  have headed := @Cursor.outcome_readHeader major none nofun string.opens inside
  rw [Cursor.readKey_eq, outcome_bind, headed, ok_bind, Cursor.keyContent, known] at found
  rcases string with rfl | rfl
  · cases found
  · obtain ⟨⟨payload, behind⟩, read, -⟩ := bind_eq_ok.mp (outcome_bind .. ▸ found)
    exact (chunked_iff (.inr rfl)).mpr ⟨payload, behind, read⟩

end

end Decoder

section
variable {config : Config}

theorem Target.insists {target : Target} (direct : ¬ target.Wraps) (wanted : target ≠ .value .ignored) :
    Insists (target.read config) := by
  cases target with
  | tuple => exact insists_readSequence.map _
  | record =>
    rw [Target.read, readRecord_eq, ← map_bind]
    exact insists_enclosed.map _
  | value type =>
    cases type with
    | ignored => exact absurd rfl wanted
    | seq => exact insists_readSequence.map _
    | map =>
      rw [Target.read, Ty.read, readMap_eq]
      exact insists_enclosed.map _
    | enumeration => exact insists_readVariant
    | option | newtype | delayed | tuple | tupleStruct | record => exact absurd trivial direct
    | _ =>
      refine insists_of_spells (Ty.IsClosed.spellsAt ?_)
      trivial

end

end TypedCbor
