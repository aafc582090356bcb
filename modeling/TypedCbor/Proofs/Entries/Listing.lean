import TypedCbor.Proofs.Entries
import TypedCbor.Proofs.Generic

namespace TypedCbor

structure Listing where
  tags : List Head
  framing : Framing
  entries : List Entry

namespace Listing

def head? (listing : Listing) : Option Head := listing.framing.head? listing.entries.length

def content (listing : Listing) : Bytes := listing.entries.flatMap Entry.bytes ++ listing.framing.closing

def bytes (listing : Listing) : Bytes :=
  tagBytes listing.tags ++ (openingBytes .map listing.head? ++ listing.content)

-- A record of the shape takes these bytes of an input, entry by entry, and leaves the rest.
structure Reads (config : Config) (shape : Shape) (fields : List (Field Ty)) (listing : Listing)
    (input rest : Bytes) : Prop where
  spelled : input = listing.bytes ++ rest
  tags : ∀ tag ∈ listing.tags, tag.Fits
  head : ∀ head ∈ listing.head?, head.Fits
  told : ∃ told, List.Forall₂ (Entry.Tells config shape fields) listing.entries told

end Listing

theorem Framing.le_of_announced {framing : Framing} {total count : Nat}
    (member : count ∈ framing.announced total) : total ≤ count := by
  cases framing with
  | delimited => cases member
  | counted width =>
    cases member
    exact Nat.le_refl _

namespace Decoder

variable {config : Config}

theorem header_of_keyed {shape : Shape} (keyed : shape.hasKeys = true) :
    shape.arrayTags = none ∧ shape.header = (.map, "map") := by
  have plain : shape.isArrayFramed = false := by
    simp only [Shape.hasKeys, Bool.and_eq_true, Bool.not_eq_true'] at keyed
    exact keyed.2
  refine ⟨Option.not_isSome_iff_eq_none.mp (by simpa [Shape.isArrayFramed] using plain), ?_⟩
  simp [Shape.header, keyed]

theorem outcome_beginStructure_keyed {shape : Shape} (keyed : shape.hasKeys = true) {tags : List Head}
    (fit : ∀ tag ∈ tags, tag.Fits) {head? : Option Head} (fits : ∀ head ∈ head?, head.Fits)
    (decoder : Decoder) (rest : Bytes) :
    outcome (beginStructure config shape) (decoder.before (tagBytes tags ++ (openingBytes .map head? ++ rest))) =
      (fun _ => (⟨shape, (openingHeader .map head?).length, 0⟩, ⟨rest, none, []⟩)) <$>
        ItemReader.ownTags config decoder.field (decoder.pendingTags ++ tags.map Head.number) := by
  obtain ⟨unframed, header⟩ := header_of_keyed keyed
  have known := openingHeader_major .map fits
  have read : outcome Cursor.readTags (tagBytes tags ++ (openingBytes .map head? ++ rest)) =
      .ok (tags.map Head.number, openingBytes .map head? ++ rest) := by
    rw [openingBytes_eq_cons, List.cons_append]
    refine Cursor.outcome_readTags fit ?_ _
    change (openingHeader .map head?).major ≠ .tag
    rw [known]
    decide
  have headed := @Cursor.outcome_readHeader .map head? fits (fun _ => rfl) rest
  simp only [beginStructure, readHeader, outcome_bind, outcome_takeTags, rest_before, field_before,
    pendingTags_before, read, ok_bind]
  cases ItemReader.ownTags config decoder.field (decoder.pendingTags ++ tags.map Head.number) with
  | error e => rfl
  | ok own =>
    simp only [ok_map, ok_bind, outcome_cursor, headed, outcome_pure, outcome_ofExcept, opened, unframed, header,
      known, if_true]

section
variable {name : String} {fields : List (Field Ty)} (keyed : (config.recordShape name fields).hasKeys = true)
include keyed

theorem outcome_readRecord_keyed (expected : String) (decoder : Decoder) :
    outcome (readRecord config name expected (fieldReaders config fields)) decoder =
      (do
        let (s, after) ← outcome (beginStructure config (config.recordShape name fields)) decoder
        outcome (Value.record name <$> closed (placeFields config (fieldReaders config fields) [] s)) after) := by
  have plain : ¬(config.recordShape name fields).isArrayFramed = true := by
    simp [Shape.isArrayFramed, (header_of_keyed keyed).1]
  cases begun : outcome (beginStructure config (config.recordShape name fields)) decoder with
  | error e =>
    rw [readRecord, map_name_fieldReaders, outcome_bind]
    change outcome (beginStructure config (config.recordShape name fields)) decoder >>= _ = _
    rw [begun]
    rfl
  | ok p => rw [record_of_begun begun, if_neg plain, ok_bind]

theorem outcome_closed_end (framing : Framing) (index : Nat) (seen : List (String × Value)) (rest : Bytes) :
    outcome (closed (placeFields config (fieldReaders config fields) seen
        ⟨config.recordShape name fields, framing.announced 0, index⟩)) ⟨framing.closing ++ rest, none, []⟩ =
      (·, ⟨rest, none, []⟩) <$> (fieldReaders config fields).mapM (FieldReader.complete seen) := by
  have ends := @outcome_nextByKey_nil config _ framing keyed index rest (framing.closing ++ rest).length
  have closes := @outcome_endStructure (config.recordShape name fields) framing [] (by simp) index rest
  change outcome (nextByKey config _ _) ⟨framing.closing ++ rest, none, []⟩ = _ at ends
  rw [closed, outcome_bind, placeFields_eq, outcome_nextElement_of_keyed keyed, ends, ok_bind, placeAnnounced]
  cases (fieldReaders config fields).mapM (FieldReader.complete seen) with
  | error e => rfl
  | ok values =>
    simp only [ok_map, ok_bind, outcome_bind]
    rw [List.length_nil] at closes
    rw [closes]
    rfl

theorem outcome_closed_content {listing : Listing} {told : List (Option (String × Value))}
    (tells : List.Forall₂ (Entry.Tells config (config.recordShape name fields) fields) listing.entries told)
    (rest : Bytes) :
    outcome (closed (placeFields config (fieldReaders config fields) []
        ⟨config.recordShape name fields, listing.framing.announced listing.entries.length, 0⟩))
        ⟨listing.content ++ rest, none, []⟩ =
      (do
        let seen ← addAll [] told
        (·, ⟨rest, none, []⟩) <$> (fieldReaders config fields).mapM (FieldReader.complete seen)) := by
  have inside := outcome_placeFields_entries
    (s := ⟨config.recordShape name fields, listing.framing.announced listing.entries.length, 0⟩)
    keyed tells (fun _ => Framing.le_of_announced) [] (listing.framing.closing ++ rest)
  rw [closed, outcome_bind, Listing.content, List.append_assoc, inside]
  cases addAll [] told with
  | error e => rfl
  | ok seen =>
    have ends := @outcome_closed_end config name fields keyed listing.framing (0 + listing.entries.length) seen rest
    have past : OpenStructure.past ⟨config.recordShape name fields,
        listing.framing.announced listing.entries.length, 0⟩ listing.entries.length =
          ⟨config.recordShape name fields, listing.framing.announced 0, 0 + listing.entries.length⟩ := by
      unfold OpenStructure.past
      cases listing.framing <;> simp [Framing.announced]
    rw [closed, outcome_bind] at ends
    rw [ok_bind, ok_bind, past]
    exact ends

end

end Decoder

open Decoder

theorem Listing.Reads.outcome_eq {config : Config} {name : String} {fields : List (Field Ty)} {listing : Listing}
    {input rest : Bytes} (reads : listing.Reads config (config.recordShape name fields) fields input rest)
    (keyed : (config.recordShape name fields).hasKeys = true) {told : List (Option (String × Value))}
    (tells : List.Forall₂ (Entry.Tells config (config.recordShape name fields) fields) listing.entries told)
    (expected : String) (decoder : Decoder) :
    outcome (readRecord config name expected (fieldReaders config fields)) (decoder.before input) =
      (do
        let _ ← ItemReader.ownTags config decoder.field (decoder.pendingTags ++ listing.tags.map Head.number)
        let seen ← addAll [] told
        (fun values => (.record name values, ⟨rest, none, []⟩)) <$>
          (fieldReaders config fields).mapM (FieldReader.complete seen)) := by
  rw [reads.spelled, Listing.bytes, List.append_assoc, List.append_assoc, outcome_readRecord_keyed keyed,
    outcome_beginStructure_keyed keyed reads.tags reads.head]
  cases ItemReader.ownTags config decoder.field (decoder.pendingTags ++ listing.tags.map Head.number) with
  | error e => rfl
  | ok own =>
    rw [ok_map, ok_bind, ok_bind]
    dsimp only
    rw [outcome_map, Listing.head?, Framing.length_openingHeader reads.head,
      outcome_closed_content keyed tells]
    cases addAll [] told with
    | error e => rfl
    | ok seen =>
      rw [ok_bind, ok_bind]
      cases (fieldReaders config fields).mapM (FieldReader.complete seen) <;> rfl

end TypedCbor
