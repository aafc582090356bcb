import Mathlib.Data.List.Perm.Basic
import TypedCbor.Proofs.Entries.Found
import TypedCbor.Proofs.Value

namespace TypedCbor

open Decoder

theorem lookup_perm {seen seen' : List (String × Value)} (perm : seen.Perm seen')
    (distinct : (seen.map Prod.fst).Nodup) (name : String) : seen.lookup name = seen'.lookup name := by
  induction perm with
  | nil => rfl
  | cons p _ ih => rw [List.lookup_cons, List.lookup_cons, ih (List.nodup_cons.mp distinct).2]
  | swap p q others =>
    have differs : q.1 ≠ p.1 := fun same => (List.nodup_cons.mp distinct).1 (by simp [same])
    rw [List.lookup_cons, List.lookup_cons, List.lookup_cons, List.lookup_cons]
    by_cases first : name = p.1
    · have second : name ≠ q.1 := fun same => differs (same ▸ first)
      simp [first, beq_false_of_ne (first ▸ second)]
    · simp [beq_false_of_ne first]
  | trans perm _ ih ih' => rw [ih distinct, ih' ((perm.map _).nodup_iff.mp distinct)]

theorem lookup_eq_none {seen : List (String × Value)} {name : String} :
    seen.lookup name = none ↔ name ∉ seen.map Prod.fst := by
  induction seen with
  | nil => simp
  | cons p seen ih =>
    rw [List.lookup_cons]
    by_cases same : name = p.1
    · simp [same]
    · simp [beq_false_of_ne same, same, ih]

theorem addAll_eq_ok {told : List (Option (String × Value))} {seen seen' : List (String × Value)}
    (distinct : (seen.map Prod.fst).Nodup) :
    addAll seen told = .ok seen' ↔
      seen' = (told.filterMap id).reverse ++ seen ∧ (seen'.map Prod.fst).Nodup := by
  induction told generalizing seen with
  | nil =>
    simp only [addAll, List.foldlM_nil, pure, Except.pure, Except.ok.injEq, List.filterMap_nil,
      List.reverse_nil, List.nil_append]
    constructor
    · rintro rfl
      exact ⟨rfl, distinct⟩
    · rintro ⟨rfl, -⟩
      rfl
  | cons one told ih =>
    rw [addAll, List.foldlM_cons]
    cases one with
    | none =>
      rw [addTold, ok_bind]
      exact ih distinct
    | some p =>
      rcases p with ⟨name, value⟩
      have kept : (some (name, value) :: told).filterMap id = (name, value) :: told.filterMap id := rfl
      rw [addTold, kept, List.reverse_cons, List.append_assoc, List.singleton_append]
      by_cases fresh : name ∈ seen.map Prod.fst
      · have found : (seen.lookup name).isSome := by
          rw [Option.isSome_iff_ne_none]
          exact fun none => lookup_eq_none.mp none fresh
        rw [if_pos found]
        constructor
        · intro refused
          cases refused
        · rintro ⟨rfl, unique⟩
          rw [List.map_append, List.map_cons] at unique
          exact absurd fresh (List.nodup_cons.mp (List.nodup_append.mp unique).2.1).1
      · rw [lookup_eq_none.mpr fresh]
        exact ih (List.nodup_cons.mpr ⟨fresh, distinct⟩)

theorem addAll_perm {told told' : List (Option (String × Value))} (perm : told.Perm told')
    {seen : List (String × Value)} (added : addAll [] told = .ok seen) :
    ∃ seen', addAll [] told' = .ok seen' ∧ ∀ name, seen'.lookup name = seen.lookup name := by
  obtain ⟨same, distinct⟩ := (addAll_eq_ok (by simp)).mp added
  rw [List.append_nil] at same
  have reordered : (told'.filterMap id).reverse.Perm seen := by
    rw [same]
    exact ((List.reverse_perm _).trans (perm.symm.filterMap id)).trans (List.reverse_perm _).symm
  have distinct' := (reordered.map Prod.fst).nodup_iff.mpr distinct
  exact ⟨_, (addAll_eq_ok (by simp)).mpr ⟨(List.append_nil _).symm, distinct'⟩, lookup_perm reordered distinct'⟩

theorem complete_congr {ρ : Type} {seen seen' : List (String × Value)}
    (same : ∀ name, seen'.lookup name = seen.lookup name) (fields : List (FieldReader ρ)) :
    fields.mapM (FieldReader.complete seen') = fields.mapM (FieldReader.complete seen) := by
  have each : FieldReader.complete (ρ := ρ) seen' = FieldReader.complete seen := by
    funext field
    rw [FieldReader.complete, FieldReader.complete, same]
  rw [each]

namespace Entry

def fieldName? (shape : Shape) (fields : List (Field Ty)) (entry : Entry) : Option String := do
  let key ← entry.key.body.key.toOption
  let index ← key.resolve shape
  let field ← fields.find? (·.name == shape.elementName index)
  return field.name

-- The same value behind the same key, or behind another key for the same element with the same tags.
structure Rekeyed (shape : Shape) (entry other : Entry) : Prop where
  value : other.value = entry.value
  key : other.key = entry.key ∨ (other.key.Formed ∧ other.key.tagNumbers = entry.key.tagNumbers ∧
    ∃ name name' index, entry.key.body.key = .ok name ∧ other.key.body.key = .ok name' ∧
      name.resolve shape = some index ∧ name'.resolve shape = some index)

section
variable {config : Config} {shape : Shape} {fields : List (Field Ty)} {entry other : Entry}
  {told : Option (String × Value)}

theorem Tells.fieldName?_eq (tells : entry.Tells config shape fields told) :
    entry.fieldName? shape fields = told.map Prod.fst := by
  cases tells with
  | @field index field value _ announced known _ =>
    obtain ⟨name, named, resolved, -⟩ := ItemReader.announced_eq_some.mp announced
    have same : field.name = shape.elementName index := by simpa using List.find?_some known
    simp [fieldName?, named, Except.toOption, resolved, known, same]
  | @passed found _ announced unknown _ =>
    cases found with
    | none =>
      obtain ⟨name, named, resolved, -⟩ := ItemReader.announced_eq_none.mp announced
      simp [fieldName?, named, Except.toOption, resolved]
    | some index =>
      obtain ⟨name, named, resolved, -⟩ := ItemReader.announced_eq_some.mp announced
      simp [fieldName?, named, Except.toOption, resolved, unknown index rfl]

theorem Rekeyed.announced_eq (rekeyed : entry.Rekeyed shape other) :
    ItemReader.announced config shape other.key = ItemReader.announced config shape entry.key := by
  rcases rekeyed.key with same | ⟨-, tags, name, name', index, named, named', resolved, resolved'⟩
  · rw [same]
  · simp only [ItemReader.announced, named, named', ok_bind, resolved, resolved', tags]

theorem Rekeyed.tells (rekeyed : entry.Rekeyed shape other) (tells : entry.Tells config shape fields told) :
    other.Tells config shape fields told := by
  have formed : other.key.Formed := by
    rcases rekeyed.key with same | ⟨formed, -⟩
    · rw [same]
      exact tells.formed
    · exact formed
  cases tells with
  | field _ announced known read =>
    rw [← rekeyed.announced_eq] at announced
    rw [← rekeyed.value] at read
    exact .field formed announced known read
  | passed _ announced unknown skipped =>
    rw [← rekeyed.announced_eq] at announced
    rw [← rekeyed.value] at skipped
    exact .passed formed announced unknown skipped

def Rearranged (shape : Shape) (entries entries' : List Entry) : Prop :=
  ∃ between, entries.Perm between ∧ List.Forall₂ (Rekeyed shape) between entries'

theorem Rearranged.tells {entries entries' : List Entry} (rearranged : Rearranged shape entries entries')
    {all : List (Option (String × Value))} (tells : List.Forall₂ (Tells config shape fields) entries all) :
    ∃ told', List.Forall₂ (Tells config shape fields) entries' told' ∧ told'.Perm all := by
  obtain ⟨between, perm, rekeyed⟩ := rearranged
  obtain ⟨told', tells', perm'⟩ := List.perm_comp_forall₂ perm.symm tells
  refine ⟨told', ?_, perm'⟩
  clear perm perm' tells
  induction rekeyed generalizing told' with
  | nil => exact tells'
  | cons here _ ih =>
    cases tells' with
    | cons first others => exact .cons (here.tells first) (ih _ others)

theorem Rearranged.length_eq {entries entries' : List Entry} (rearranged : Rearranged shape entries entries') :
    entries'.length = entries.length := by
  obtain ⟨between, perm, rekeyed⟩ := rearranged
  rw [← rekeyed.length_eq, perm.length_eq]

end

end Entry

open Entry

theorem Listing.Reads.rearranged {config : Config} {shape : Shape} {fields : List (Field Ty)} {listing : Listing}
    {input rest : Bytes} (reads : listing.Reads config shape fields input rest) {entries' : List Entry}
    (rearranged : Rearranged shape listing.entries entries') :
    Listing.Reads config shape fields { listing with entries := entries' }
      (Listing.bytes { listing with entries := entries' } ++ rest) rest := by
  refine ⟨rfl, reads.tags, ?_, ?_⟩
  · rw [Listing.head?, rearranged.length_eq]
    exact reads.head
  · obtain ⟨told, tells⟩ := reads.told
    obtain ⟨told', tells', -⟩ := rearranged.tells tells
    exact ⟨told', tells'⟩

theorem Entry.filterMap_fieldName? {config : Config} {shape : Shape} {fields : List (Field Ty)}
    {entries : List Entry} {told : List (Option (String × Value))}
    (tells : List.Forall₂ (Tells config shape fields) entries told) :
    entries.filterMap (fieldName? shape fields) = (told.filterMap id).map Prod.fst := by
  induction tells with
  | nil => rfl
  | @cons entry told _ _ here _ ih =>
    rw [List.filterMap_cons, here.fieldName?_eq, ih]
    cases told <;> rfl

section
variable {config : Config} {name expected : String} {fields : List (Field Ty)} {listing : Listing}
  {input rest : Bytes} {value : Value} {decoder after : Decoder}
  (keyed : (config.recordShape name fields).hasKeys = true)
  (reads : listing.Reads config (config.recordShape name fields) fields input rest)
  (found : outcome (readRecord config name expected (fieldReaders config fields)) (decoder.before input) =
    .ok (value, after))
include keyed reads found

theorem Listing.Reads.distinct :
    (listing.entries.filterMap (fieldName? (config.recordShape name fields) fields)).Nodup := by
  obtain ⟨told, tells⟩ := reads.told
  rw [reads.outcome_eq keyed tells] at found
  obtain ⟨_, -, found⟩ := bind_eq_ok.mp found
  obtain ⟨seen, added, -⟩ := bind_eq_ok.mp found
  obtain ⟨rfl, distinct⟩ := (addAll_eq_ok (by simp)).mp added
  rw [filterMap_fieldName? tells]
  rw [List.append_nil, List.map_reverse] at distinct
  exact (List.reverse_perm _).nodup_iff.mp distinct

theorem Listing.Reads.outcome_rearranged {entries' : List Entry}
    (rearranged : Rearranged (config.recordShape name fields) listing.entries entries') :
    outcome (readRecord config name expected (fieldReaders config fields))
        (decoder.before (Listing.bytes { listing with entries := entries' } ++ rest)) = .ok (value, after) := by
  obtain ⟨told, tells⟩ := reads.told
  obtain ⟨told', tells', perm⟩ := rearranged.tells tells
  rw [reads.outcome_eq keyed tells] at found
  obtain ⟨own, owned, found⟩ := bind_eq_ok.mp found
  obtain ⟨seen, added, found⟩ := bind_eq_ok.mp found
  obtain ⟨seen', added', same⟩ := addAll_perm perm.symm added
  rw [(reads.rearranged rearranged).outcome_eq keyed tells', owned, ok_bind, added', ok_bind, complete_congr same]
  exact found

end

-- Wherever an accepted document comes to a record with keys, no two entries are of one field, and rearranging
-- them changes nothing. Its entries are those of the map it is written as, unless the configuration has a record
-- be a data map and an array at once, so that a value may end before its item does.
theorem Config.decode_rearranged {config : Config} {type : Ty} {input : Bytes} {value : Value}
    (accepted : config.decode type input = .ok value) {name expected : String} {fields : List (Field Ty)}
    {inner : Decoder} (visits : config.Visits type input (.record name expected fields) inner)
    (keyed : (config.recordShape name fields).hasKeys = true) :
    (∃ front listing rest, input = front ++ inner.rest ∧
      Listing.Reads config (config.recordShape name fields) fields listing inner.rest rest) ∧
    (config.Regular → ∀ tags framing entries rest, (Item.mk tags (.map framing entries)).Readable →
      inner.rest = (Item.mk tags (.map framing entries)).bytes ++ rest →
        Listing.Reads config (config.recordShape name fields) fields (.ofMap tags framing entries) inner.rest rest) ∧
    ∀ front listing rest, input = front ++ inner.rest →
      Listing.Reads config (config.recordShape name fields) fields listing inner.rest rest →
        (listing.entries.filterMap (fieldName? (config.recordShape name fields) fields)).Nodup ∧
        ∀ entries', Rearranged (config.recordShape name fields) listing.entries entries' →
          config.decode type (front ++ (Listing.bytes { listing with entries := entries' } ++ rest)) = .ok value := by
  obtain ⟨some, whole⟩ := visits.listed accepted keyed
  refine ⟨some, whole, fun front listing rest split reads => ?_⟩
  obtain ⟨front', resume, split', law⟩ := visits.decode_eq
  cases List.append_cancel_right (split.symm.trans split')
  obtain ⟨part, after, read⟩ := visits.accepted accepted
  rw [Target.read] at law read
  refine ⟨reads.distinct keyed read, fun entries' rearranged => ?_⟩
  have alike : Resembles inner.rest (Listing.bytes { listing with entries := entries' } ++ rest) := by
    rw [reads.spelled, Listing.bytes, Listing.bytes, Listing.head?, Listing.head?, rearranged.length_eq]
    simp only [List.append_assoc]
    rw [openingBytes_eq_cons]
    exact (Resembles.cons _ _ _).prepend _
  rw [split, law _ (.refl _)] at accepted
  rw [law _ alike, reads.outcome_rearranged keyed read rearranged, ← accepted, inner.before_rest, read]

theorem Config.decode_rearranged_parcel :
    Config.parcels.decode (.seq .parcel) [0x81, 0xa2, 0xc5, 0x01, 0xd8, 0x18, 0x42, 0x81, 0x00, 0x02, 0xa0] =
        .ok (.seq [.parcel]) ∧
      Config.parcels.Visits (.seq .parcel) (0x81 :: Listing.parcel.bytes)
        (.record "Parcel" "struct Parcel" Ty.parcelFields) ⟨Listing.parcel.bytes, none, []⟩ ∧
      (Config.parcels.recordShape "Parcel" Ty.parcelFields).hasKeys = true ∧
      Config.parcels.decode (.seq .parcel)
        [0x81, 0xa2, 0x64, 0x6e, 0x6f, 0x74, 0x65, 0xa0, 0xc5, 0x18, 0x01, 0xd8, 0x18, 0x42, 0x81, 0x00] =
          .ok (.seq [.parcel]) := by
  have accepted : Config.parcels.decode (.seq .parcel) (0x81 :: Listing.parcel.bytes) = .ok (.seq [.parcel]) := by
    decide +kernel
  have content : Rekeyed (Config.parcels.recordShape "Parcel" Ty.parcelFields)
      ⟨⟨[.shortest 5], .unsigned (.shortest 1)⟩, [0xd8, 0x18, 0x42, 0x81, 0x00]⟩
      ⟨⟨[.shortest 5], .unsigned ⟨.one, 1⟩⟩, [0xd8, 0x18, 0x42, 0x81, 0x00]⟩ :=
    ⟨rfl, .inr ⟨Item.formed_label (by decide) (by decide), rfl, .label 1, .label 1, 0, rfl, rfl, rfl, rfl⟩⟩
  have note : Rekeyed (Config.parcels.recordShape "Parcel" Ty.parcelFields)
      ⟨⟨[], .unsigned (.shortest 2)⟩, [0xa0]⟩
      ⟨⟨[], .text (.whole ⟨.immediate, [0x6e, 0x6f, 0x74, 0x65]⟩)⟩, [0xa0]⟩ :=
    ⟨rfl, .inr ⟨⟨by decide, by decide, by decide, by simp⟩, rfl, .label 2, .name "note", 1, rfl, rfl, rfl, rfl⟩⟩
  obtain ⟨-, -, law⟩ := Config.decode_rearranged accepted Config.visits_parcel rfl
  obtain ⟨-, same⟩ := law [0x81] Listing.parcel [] rfl Listing.reads_parcel
  have rearranged := same _ ⟨_, .swap _ _ [], .cons note (.cons content .nil)⟩
  have spelled : [0x81] ++ (Listing.bytes { Listing.parcel with entries := [
      ⟨⟨[], .text (.whole ⟨.immediate, [0x6e, 0x6f, 0x74, 0x65]⟩)⟩, [0xa0]⟩,
      ⟨⟨[.shortest 5], .unsigned ⟨.one, 1⟩⟩, [0xd8, 0x18, 0x42, 0x81, 0x00]⟩] } ++ []) =
    [0x81, 0xa2, 0x64, 0x6e, 0x6f, 0x74, 0x65, 0xa0, 0xc5, 0x18, 0x01, 0xd8, 0x18, 0x42, 0x81, 0x00] := by rfl
  exact ⟨Listing.bytes_parcel ▸ accepted, Config.visits_parcel, rfl, spelled ▸ rearranged⟩

theorem Config.decode_nestedPair_swapped :
    Config.nestedPairs.decode .nestedPair [0x9f, 0xa2, 0x01, 0xa1, 0x01, 0x05, 0x05, 0x07, 0xff] =
        .ok (.nestedPair 5 7) ∧
      Config.nestedPairs.decode .nestedPair [0x9f, 0xa2, 0x05, 0x07, 0x01, 0xa1, 0x01, 0x05, 0xff] =
        .ok (.nestedPair 7 5) ∧
      Config.nestedPairs.decode .nestedPair [0x9f, 0xa2, 0x01, 0xa1, 0x01, 0x05, 0x01, 0x09, 0xff] =
        .ok (.nestedPair 1 9) := by
  refine ⟨?_, ?_, ?_⟩ <;> decide +kernel

end TypedCbor
