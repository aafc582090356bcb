import TypedCbor.Proofs.Places.Visited

namespace TypedCbor

open Decoder

def Tagged (input : Bytes) (tags : List UInt64) : Prop :=
  ∃ (heads : List Head) (byte : UInt8) (more : Bytes), (∀ head ∈ heads, head.Fits) ∧ heads.map Head.number = tags ∧
    input = tagBytes heads ++ byte :: more ∧ Major.ofInitial byte ≠ .tag

theorem tagged_iff {input : Bytes} {tags : List UInt64} :
    Tagged input tags ↔ ∃ rest, outcome Cursor.readTags input = .ok (tags, rest) := by
  constructor
  · rintro ⟨heads, byte, more, fit, rfl, rfl, stops⟩
    exact ⟨byte :: more, Cursor.outcome_readTags fit stops more⟩
  · rintro ⟨rest, read⟩
    obtain ⟨heads, fit, rfl, spelled, byte, more, rfl, stops⟩ := Cursor.tags_of_readTags read
    exact ⟨heads, byte, more, fit, rfl, spelled, stops⟩

theorem Tagged.unique {input : Bytes} {tags others : List UInt64} (tagged : Tagged input tags)
    (again : Tagged input others) : others = tags := by
  obtain ⟨rest, read⟩ := tagged_iff.mp tagged
  obtain ⟨rest', read'⟩ := tagged_iff.mp again
  rw [read] at read'
  cases read'
  rfl

-- Targets that are read from the very item that what is inside of them is read from.
def Target.Wraps : Target → Prop
  | value (.option _) | value (.newtype ..) | value (.delayed _) | value (.tuple _) | value (.tupleStruct ..)
  | value (.record ..) => True
  | _ => False

-- The places within one item, from outside in.
inductive Sits (config : Config) (target : Target) (decoder : Decoder) : Target → Decoder → Prop where
  | here : Sits config target decoder target decoder
  | further {between target' : Target} {decoder₁ inner : Decoder} (sits : Sits config target decoder between decoder₁)
      (wraps : between.Wraps) (enters : Enters config between decoder₁ target' inner) :
      Sits config target decoder target' inner

def PassedOver (config : Config) (target : Target) (decoder : Decoder) : Prop :=
  ∃ inner, Sits config target decoder (.value .ignored) inner

section
variable {config : Config} {α β : Type}

def TagsPass (config : Config) (decoder : Decoder) : Prop :=
  ∃ own after, outcome (takeTags config) decoder = .ok (own, after)

def TakesTags (config : Config) (read : DecodeM α) : Prop :=
  ∀ decoder a after, outcome read decoder = .ok (a, after) → TagsPass config decoder

theorem TakesTags.bind {read : DecodeM α} (takes : TakesTags config read) {next : α → DecodeM β} :
    TakesTags config (read >>= next) := by
  intro decoder b after found
  obtain ⟨⟨a, between⟩, first, -⟩ := bind_eq_ok.mp (outcome_bind .. ▸ found)
  exact takes decoder a between first

theorem TakesTags.map {read : DecodeM α} (takes : TakesTags config read) (f : α → β) :
    TakesTags config (f <$> read) := by
  intro decoder b after found
  obtain ⟨⟨a, between⟩, first, -⟩ := map_eq_ok.mp (outcome_map .. ▸ found)
  exact takes decoder a between first

theorem outcome_takeTags_ahead {decoder between : Decoder} (ahead : outcome readAhead decoder = .ok ((), between)) :
    outcome (takeTags config) decoder = outcome (takeTags config) between := by
  obtain ⟨⟨numbers, tagged⟩, read, found⟩ := bind_eq_ok.mp (outcome_bind .. ▸ ahead)
  obtain ⟨rest, readTags, rfl⟩ := rest_of_cursor read
  cases found
  obtain ⟨-, -, -, -, byte, more, rfl, stops⟩ := Cursor.tags_of_readTags readTags
  rw [outcome_takeTags, outcome_takeTags, readTags, Cursor.outcome_readTags_untagged stops, ok_bind, ok_bind,
    List.append_nil]

theorem TakesTags.behindAhead {read : DecodeM α} (takes : TakesTags config read) :
    TakesTags config (readAhead >>= fun _ => read) := by
  intro decoder a after found
  obtain ⟨⟨_, between⟩, ahead, found⟩ := bind_eq_ok.mp (outcome_bind .. ▸ found)
  obtain ⟨own, behind, took⟩ := takes between a after found
  exact ⟨own, behind, (outcome_takeTags_ahead ahead).trans took⟩

end

namespace Decoder

variable {config : Config}

theorem takesTags_takeTags : TakesTags config (takeTags config) :=
  fun _ own after took => ⟨own, after, took⟩

theorem takesTags_readHeader : TakesTags config (readHeader config) := takesTags_takeTags.bind

theorem takesTags_readPlainHeader : TakesTags config (readPlainHeader config) := takesTags_readHeader.bind

theorem takesTags_readInteger : TakesTags config (readInteger config) := takesTags_readPlainHeader.bind

theorem takesTags_readText : TakesTags config (readText config) := takesTags_readPlainHeader.bind

theorem takesTags_readVariant (variants : List (VariantReader (DecodeM Value))) :
    TakesTags config (readVariant config variants) := by
  refine TakesTags.behindAhead fun decoder value after found => ?_
  obtain ⟨⟨major, _⟩, looked, found⟩ := bind_eq_ok.mp (outcome_bind .. ▸ found)
  obtain ⟨rest, peeked, rfl⟩ := rest_of_cursor looked
  cases Cursor.eq_of_peekMajor peeked
  dsimp only at found
  split at found
  · exact takesTags_readText.bind _ _ _ found
  · rw [readVariantPair_eq] at found
    exact takesTags_readHeader.bind _ _ _ found
  · cases found

theorem takesTags_readGeneric (rounds : Nat) : TakesTags config (readGeneric config rounds) := by
  cases rounds with
  | zero =>
    intro decoder value after found
    cases found
  | succ rounds =>
    rw [readGeneric_succ]
    exact takesTags_readHeader.bind

theorem takesTags_readRecord (name expected : String) (fields : List (FieldReader (DecodeM Value))) :
    TakesTags config (readRecord config name expected fields) := by
  rw [readRecord_eq]
  exact takesTags_readHeader.bind

theorem ahead_of_readNull {decoder inner : Decoder} (present : outcome (readNull config) decoder = .ok (false, inner)) :
    outcome readAhead decoder = .ok ((), inner) := by
  rw [readNull_eq] at present
  obtain ⟨⟨_, between⟩, ahead, found⟩ := bind_eq_ok.mp (outcome_bind .. ▸ present)
  obtain ⟨rfl, -⟩ := reaches_nullAt (show outcome (nullAt config between.field) between = _ from found)
  exact ahead

theorem tagsPass_of_readNull {decoder after : Decoder} (null : outcome (readNull config) decoder = .ok (true, after)) :
    TagsPass config decoder := by
  rw [readNull_eq] at null
  obtain ⟨⟨_, between⟩, ahead, found⟩ := bind_eq_ok.mp (outcome_bind .. ▸ null)
  change outcome (nullAt config between.field) between = .ok (true, after) at found
  obtain ⟨⟨initial, _⟩, looked, found⟩ := bind_eq_ok.mp (outcome_bind .. ▸ found)
  obtain ⟨rest, peeked, rfl⟩ := rest_of_cursor looked
  obtain ⟨rfl, -⟩ := Cursor.eq_of_peek peeked
  dsimp only at found
  split at found
  · obtain ⟨⟨own, behind⟩, took, -⟩ := bind_eq_ok.mp (outcome_bind .. ▸ found)
    exact ⟨own, behind, (outcome_takeTags_ahead ahead).trans took⟩
  · cases found

end Decoder

section
variable {config : Config} {target target' : Target} {decoder inner : Decoder}

theorem Target.frame_of_wraps (wraps : target.Wraps) : target.frame config = none := by
  cases target with
  | value type => cases type <;> first | rfl | exact False.elim wraps
  | tuple | record => exact False.elim wraps

theorem Enters.outcome_takeTags (enters : Enters config target decoder target' inner) (wraps : target.Wraps) :
    outcome (takeTags config) decoder = outcome (takeTags config) inner := by
  cases enters with
  | tuple | tupleStruct | record | newtype | delayed => rfl
  | option present => exact outcome_takeTags_ahead (ahead_of_readNull present)
  | variant => exact False.elim wraps
  | element framed =>
    rw [Target.frame_of_wraps wraps] at framed
    cases framed

theorem Sits.outcome_takeTags (sits : Sits config target decoder target' inner) :
    outcome (takeTags config) decoder = outcome (takeTags config) inner := by
  induction sits with
  | here => rfl
  | further _ wraps enters ih => exact ih.trans (enters.outcome_takeTags wraps)

theorem Sits.after {between : Target} {decoder₁ : Decoder} (sits : Sits config between decoder₁ target' inner)
    (wraps : target.Wraps) (enters : Enters config target decoder between decoder₁) :
    Sits config target decoder target' inner := by
  induction sits with
  | here => exact .further .here wraps enters
  | further _ wraps' last ih => exact .further ih wraps' last

theorem Enters.takes (enters : Enters config target decoder target' inner) (wraps : target.Wraps)
    (inside : PassedOver config target' inner ∨ TagsPass config inner) :
    PassedOver config target decoder ∨ TagsPass config decoder := by
  rcases inside with ⟨place, sits⟩ | ⟨own, after, took⟩
  · exact .inl ⟨place, sits.after wraps enters⟩
  · exact .inr ⟨own, after, (enters.outcome_takeTags wraps).trans took⟩

theorem Ty.passedOver_or_tagsPass (type : Ty) {decoder after : Decoder} {value : Value}
    (read : outcome (type.read config) decoder = .ok (value, after)) :
    PassedOver config (.value type) decoder ∨ TagsPass config decoder := by
  -- An option, a newtype and a delayed type leave the item to the type inside.
  induction type using Ty.induction generalizing decoder value after with
  | step type each =>
    cases type with
    | ignored => exact .inl ⟨decoder, .here⟩
    | newtype name type =>
      obtain ⟨⟨held, _⟩, inside, -⟩ := map_eq_ok.mp (outcome_map .. ▸ read)
      exact Enters.takes .newtype trivial (each type (List.mem_singleton_self type) inside)
    | delayed type => exact Enters.takes .delayed trivial (each (type ()) (List.mem_singleton_self _) read)
    | option type =>
      obtain ⟨⟨null, inner⟩, looked, found⟩ := bind_eq_ok.mp (outcome_bind .. ▸ read)
      cases null with
      | true => exact .inr (tagsPass_of_readNull looked)
      | false =>
        change outcome (type.read config >>= fun value => pure (Value.some value)) inner = _ at found
        obtain ⟨⟨held, _⟩, inside, -⟩ := bind_eq_ok.mp (outcome_bind .. ▸ found)
        exact (Enters.option looked).takes trivial (each type (List.mem_singleton_self type) inside)
    | bool => exact .inr (takesTags_readPlainHeader.bind.map _ _ _ _ read)
    | int | char => exact .inr (takesTags_readInteger.bind _ _ _ read)
    | single | double => exact .inr (takesTags_readPlainHeader.bind.map _ _ _ _ read)
    | text | identifier => exact .inr (takesTags_readText.map _ _ _ _ read)
    | textSlice => exact .inr (takesTags_readText.bind _ _ _ read)
    | bytes => exact .inr (takesTags_readHeader.bind.map _ _ _ _ read)
    | bytesSlice => exact .inr (takesTags_readHeader.bind.bind _ _ _ read)
    | unit | unitStruct => exact .inr (takesTags_readPlainHeader.bind _ _ _ read)
    | seq | tuple | tupleStruct => exact .inr (takesTags_readHeader.bind.map _ _ _ _ read)
    | map => exact .inr (takesTags_readHeader.bind.bind.map _ _ _ _ read)
    | record => exact .inr (takesTags_readRecord _ _ _ _ _ _ read)
    | enumeration => exact .inr (takesTags_readVariant _ _ _ _ read)
    | embedded => exact .inr (takesTags_readPlainHeader.bind _ _ _ read)
    | any => exact .inr (takesTags_readGeneric _ _ _ _ read)

theorem Target.passedOver_or_tagsPass (target : Target) {decoder after : Decoder} {value : Value}
    (read : outcome (target.read config) decoder = .ok (value, after)) :
    PassedOver config target decoder ∨ TagsPass config decoder := by
  cases target with
  | value type => exact type.passedOver_or_tagsPass read
  | tuple => exact .inr (takesTags_readHeader.bind.map _ _ _ _ read)
  | record => exact .inr (takesTags_readRecord _ _ _ _ _ _ read)

end
end TypedCbor
