import TypedCbor.Proofs.Places.Visited
import TypedCbor.Proofs.Rechunked.Structures

namespace TypedCbor

-- Types whose values tell whether a string was in one piece, and those that refuse it in chunks.
def Ty.SeesChunks : Ty → Prop
  | textSlice | bytesSlice | any | identifier | embedded _ => True
  | _ => False

theorem Recut.null {byte : UInt8} {object : Bool} {more input' : Bytes}
    (null : byte = nullByte ∨ byte = undefinedByte ∨ (byte = emptyMapByte ∧ object))
    (recut : Recut (byte :: more) input') : ∃ more', input' = byte :: more' ∧ Recut more more' := by
  obtain ⟨major, n, plain, small, spelled⟩ : ∃ (major : Major) (n : Nat), ¬ major.IsString ∧ n < 24 ∧
      ∀ more, byte :: more = openingBytes major (some ⟨.immediate, n⟩) ++ more := by
    rcases null with rfl | rfl | ⟨rfl, -⟩
    · exact ⟨.simple, 22, by decide, by decide, fun _ => rfl⟩
    · exact ⟨.simple, 23, by decide, by decide, fun _ => rfl⟩
    · exact ⟨.map, 0, by decide, by decide, fun _ => rfl⟩
  have fits : ∀ head ∈ some (Head.mk .immediate n), head.Fits := by
    rintro head ⟨⟩
    exact small
  rw [spelled] at recut
  rcases recut.of_opening fits nofun with ⟨-, more', rfl, inner⟩ | ⟨string, -⟩
  · exact ⟨more', (spelled more').symm, inner⟩
  · exact absurd string plain

namespace Decoder

section
variable {α : Type} {config : Config}

theorem seamless_ofHeader {f : Header → Except Error α}
    (others : ∀ header a, f header = .ok a → ¬ header.major.IsString) :
    Seamless (readPlainHeader config >>= fun header => ofExcept (f header)) := by
  refine seamless_behindPlainHeader (fun header _ => seamless_ofExcept _) fun major string => ?_
  refine seamlessBehind_of_refused fun header known decoder a after found => ?_
  obtain ⟨_, told, -⟩ := map_eq_ok.mp (outcome_ofExcept .. ▸ found)
  exact others header _ told (known ▸ string)

theorem seamless_readInteger : Seamless (readInteger config) := by
  refine seamless_ofHeader fun header n told => ?_
  rcases Header.major_of_integer told with known | known <;> rw [known] <;> decide

theorem seamless_readFloat : Seamless (readFloat config) := by
  refine seamless_ofHeader fun header bits told => ?_
  rw [Header.major_of_float told]
  decide

theorem seamless_readBool : Seamless (readBool config) := by
  refine seamless_ofHeader fun header value told => ?_
  rw [Header.major_of_boolean told]
  decide

theorem seamless_readInt (kind : IntKind) : Seamless (readInt config kind) :=
  seamless_readInteger.bind fun _ => (seamless_pure _).ite (seamless_throw _)

theorem seamless_readByte : Seamless (readByte config) :=
  seamless_readInteger.bind fun _ => (seamless_pure _).ite (seamless_throw _)

theorem seamless_readChar : Seamless (readChar config) :=
  seamless_readInteger.bind fun _ => (seamless_throw _).ite ((seamless_pure _).ite (seamless_throw _))

theorem seamless_readUnit : Seamless (readUnit config) := by
  refine seamless_behindPlainHeader (fun header _ => (seamless_pure _).ite (seamless_throw _)) fun major string => ?_
  refine seamlessBehind_of_refused fun header known decoder value after found => ?_
  split at found
  · rename_i null
    have simple : header.major = .simple := by
      rw [Header.major]
      rcases null with same | same <;> rw [same] <;> rfl
    rw [← known, simple] at string
    exact absurd string (by decide)
  · cases found

theorem seamless_readText : Seamless (TextPayload.text <$> readText config) := by
  rw [readText, map_bind]
  refine seamless_behindPlainHeader (fun header plain => ?_) fun major string => ?_
  · rw [if_neg fun text => plain (.inr text)]
    exact (seamless_throw _).map _
  · rcases string with rfl | rfl
    · refine seamlessBehind_of_refused fun header bytes decoder name after found => ?_
      rw [bytes] at found
      cases found
    · refine seamlessBehind_of_payload (.inr rfl)
        (fun content => seamless_ofExcept (TextPayload.text <$> (Payload.mk content true).text))
        fun header text => ?_
      rw [if_pos text, map_bind]
      congr
      funext payload
      rw [← payload.text_eq]
      cases payload.text <;> rfl

theorem seamless_named {next : String → DecodeM α} (second : ∀ name, Seamless (next name)) :
    Seamless (readText config >>= fun payload => next payload.text) := by
  have named := (@seamless_readText config).bind second
  rwa [bind_map_left] at named

theorem seamless_readBytes : Seamless (Payload.bytes <$> readBytes config) := by
  rw [readBytes_eq, map_bind]
  refine seamless_behindHeader (fun header own plain => ?_) fun major own string => ?_
  · dsimp only
    split
    case h_1 bytes => exact absurd (.inl bytes) plain
    case h_2 =>
      have elements := @seamless_readElements _ config _ seamless_readByte (delimits_readByte.moves config)
      exact ((seamless_enclosed elements _).map _).map _
    case h_3 => exact (seamless_throw _).map _
  · rcases string with rfl | rfl
    · refine seamlessBehind_of_payload (.inl rfl) seamless_pure fun header bytes => ?_
      rw [bytes]
      exact map_eq_pure_bind _ _
    · refine seamlessBehind_of_refused fun header text decoder content after found => ?_
      dsimp only at found
      rw [text] at found
      cases found

theorem seamless_readSequence {ofBytes : Bytes → Except Error (List Value)}
    {ofElements : OpenStructure → DecodeM (List Value × OpenStructure)} (elements : ∀ s, Seamless (ofElements s)) :
    Seamless (readSequence config ofBytes ofElements) := by
  rw [readSequence_eq]
  refine seamless_behindHeader (fun header own plain => ?_) fun major own string => ?_
  · dsimp only
    rw [if_neg fun bytes => plain (.inl bytes)]
    exact seamless_enclosed elements _
  · rcases string with rfl | rfl
    · exact seamlessBehind_of_payload (.inl rfl) (fun content => seamless_ofExcept (ofBytes content))
        fun header bytes => if_pos bytes
    · refine seamlessBehind_of_refused fun header text decoder values after found => ?_
      rw [if_neg (by rw [text]; decide)] at found
      exact enclosed_refuses (.inr text) own decoder values after found

theorem seamless_readMap {key value : DecodeM Value} (keys : Seamless key) (values : Seamless value)
    (keysMove : Moves key) (valuesMove : Moves value) : Seamless (readMap config key value) := by
  rw [readMap_eq]
  exact seamless_structure (seamless_readEntries keys values keysMove valuesMove)

theorem seamless_readRecord {fields : List (FieldReader (DecodeM Value))}
    (each : ∀ field ∈ fields, Seamless field.read) (move : ∀ field ∈ fields, Moves field.read)
    (name expected : String) : Seamless (readRecord config name expected fields) := by
  rw [readRecord_eq, ← map_bind]
  refine (seamless_structure fun s => ?_).map _
  split
  · exact seamless_takeFields each _ _ s
  · exact seamless_readFields each move s

theorem seamless_nullAt (field : Option Element) : Seamless (nullAt config field) := by
  intro decoder rest' recut null after found
  obtain ⟨⟨byte, _⟩, looked, found⟩ := bind_eq_ok.mp (outcome_bind .. ▸ found)
  obtain ⟨rest, peeked, rfl⟩ := rest_of_cursor looked
  obtain ⟨rfl, more, begins⟩ := Cursor.eq_of_peek peeked
  rw [begins] at recut
  obtain ⟨byte', more', rfl, -, -⟩ := recut.begins
  dsimp only at found
  split at found
  · rename_i null
    obtain ⟨more'', same, inner⟩ := recut.null null
    cases same
    have stops : Major.ofInitial byte ≠ .tag := by
      rcases null with rfl | rfl | ⟨rfl, -⟩ <;> decide
    simp only [outcome_bind, outcome_takeTags, begins, Cursor.outcome_readTags_untagged stops, ok_bind] at found
    obtain ⟨⟨own, _⟩, took, found⟩ := bind_eq_ok.mp found
    obtain ⟨_, settled, same⟩ := map_eq_ok.mp took
    cases same
    cases found
    refine ⟨more', ?_, inner⟩
    simp only [nullAt, outcome_bind, outcome_cursor, rest_before, Cursor.outcome_peek, ok_map, ok_bind, if_pos null,
      outcome_takeTags, Cursor.outcome_readTags_untagged stops, field_before, pendingTags_before, settled,
      Cursor.outcome_readByte]
    rfl
  · rename_i other
    cases found
    have other' : ¬(byte' = nullByte ∨ byte' = undefinedByte ∨
        (byte' = emptyMapByte ∧ (field.map (·.object)).getD false = true)) := by
      intro null
      obtain ⟨_, same, -⟩ := recut.symm.null null
      cases same
      exact other null
    refine ⟨byte' :: more', ?_, begins ▸ recut⟩
    simp only [nullAt, outcome_bind, outcome_cursor, rest_before, Cursor.outcome_peek, ok_map, ok_bind,
      if_neg other']
    rfl

theorem seamless_readNull : Seamless (readNull config) := by
  rw [readNull_eq]
  exact seamless_readAhead.bind fun _ => seamless_ofField seamless_nullAt

theorem seamless_readOption {read : DecodeM Value} (seamless : Seamless read) : Seamless (readOption config read) :=
  seamless_readNull.bind fun _ => (seamless_pure _).ite (seamless.bind fun _ => seamless_pure _)

def ContentReader.IsSeamless : ContentReader (DecodeM Value) → Prop
  | .unit => True
  | .content _ read => Seamless read

theorem seamless_contentOf {variants : List (VariantReader (DecodeM Value))}
    (each : ∀ variant ∈ variants, ContentReader.IsSeamless variant.content) (name : String)
    {next : ContentReader (DecodeM Value) → DecodeM α}
    (second : ∀ content, ContentReader.IsSeamless content → Seamless (next content)) :
    Seamless (ofExcept (contentOf variants name) >>= next) := by
  unfold contentOf
  cases found : variants.find? (·.name == name) with
  | none => exact seamless_throw _
  | some variant => exact second _ (each variant (List.mem_of_find?_eq_some found))

theorem seamless_readBareVariant {variants : List (VariantReader (DecodeM Value))}
    (each : ∀ variant ∈ variants, ContentReader.IsSeamless variant.content) :
    Seamless (readBareVariant config variants) := by
  have behind (name : String) (content : ContentReader (DecodeM Value)) : Seamless (bareVariant name content) := by
    cases content with
    | unit => exact seamless_pure _
    | content => exact seamless_throw _
  have named := @seamless_named _ config (fun name => ofExcept (contentOf variants name) >>= bareVariant name)
    fun name => seamless_contentOf each name fun content _ => behind name content
  exact named

theorem seamless_behindName {content : ContentReader (DecodeM Value)} (seamless : ContentReader.IsSeamless content)
    (s : OpenStructure) (name : String) : Seamless (behindName config s name content) := by
  cases content with
  | unit =>
    refine (seamless_nextElement s).bind fun p => Seamless.bind ?_ fun _ => seamless_pure _
    cases p.1 with
    | none => exact seamless_pure _
    | some index => exact Cursor.seamless_skipItem
  | content form read =>
    refine (seamless_nextElement s).bind fun p => ?_
    rcases p with ⟨_ | index, s⟩
    · exact seamless_throw _
    · exact Seamless.bind seamless fun _ => seamless_pure _

theorem seamless_readVariantPair {variants : List (VariantReader (DecodeM Value))}
    (each : ∀ variant ∈ variants, ContentReader.IsSeamless variant.content) :
    Seamless (readVariantPair config variants) := by
  rw [readVariantPair_eq]
  refine seamless_structure fun s => ?_
  rw [pairInside_eq]
  refine (seamless_nextElement s).bind fun p => ?_
  rcases p with ⟨_ | index, s⟩
  · exact seamless_throw _
  · exact seamless_named fun name => seamless_contentOf each name fun content same => seamless_behindName same s name

theorem seamless_readVariant {variants : List (VariantReader (DecodeM Value))}
    (each : ∀ variant ∈ variants, ContentReader.IsSeamless variant.content) :
    Seamless (readVariant config variants) := by
  refine seamless_readAhead.bind fun _ => Cursor.seamless_peekMajor.bind fun major => ?_
  cases major with
  | text => exact seamless_readBareVariant each
  | array => exact seamless_readVariantPair each
  | _ => exact seamless_throw _

end

end Decoder

open Decoder

section
variable {config : Config}

theorem seamless_tuple {types : List Ty} (each : ∀ type ∈ types, Seamless (type.read config)) (expected : String) :
    Seamless (Value.tuple <$> readTuple config expected (slots config types)) := by
  refine (seamless_readSequence fun s => seamless_fillFromElements ?_ expected 0 s).map _
  rw [slots_eq_map, List.forall_mem_map]
  exact each

theorem seamless_record {fields : List (Field Ty)}
    (each : ∀ type ∈ fields.map Field.type, Seamless (type.read config)) (name expected : String) :
    Seamless (readRecord config name expected (fieldReaders config fields)) := by
  rw [List.forall_mem_map] at each
  refine seamless_readRecord ?_ ?_ name expected <;> rw [fieldReaders_eq_map, List.forall_mem_map]
  · exact each
  · exact fun field _ => field.type.delimits.moves config

theorem isSeamless_contentReader (parent name : String) {content : Content Ty}
    (each : ∀ type ∈ content.parts, Seamless (type.read config)) :
    ContentReader.IsSeamless (contentReader config parent name content) := by
  cases content with
  | unit => trivial
  | newtype type => exact each type (List.mem_singleton_self type)
  | tuple types => exact seamless_tuple each _
  | record fields => exact seamless_record each name _

theorem Ty.seamless {type : Ty} (chunkless : type.Everywhere fun part => ¬ part.SeesChunks) :
    Seamless (type.read config) := by
  induction chunkless with
  | @intro type here _ each =>
    cases type with
    | bool => exact seamless_readBool.map _
    | int kind => exact seamless_readInt kind
    | single => exact seamless_readFloat.map _
    | double => exact seamless_readFloat.map _
    | char => exact seamless_readChar
    | text =>
      rw [Ty.read, comp_map]
      exact seamless_readText.map _
    | bytes =>
      rw [Ty.read, comp_map]
      exact seamless_readBytes.map _
    | unit | unitStruct => exact seamless_readUnit
    | option type => exact seamless_readOption (each type (List.mem_singleton_self type))
    | seq type =>
      have inner := each type (List.mem_singleton_self type)
      exact (seamless_readSequence (seamless_readElements inner (type.delimits.moves config))).map _
    | tuple types => exact seamless_tuple each _
    | tupleStruct name types => exact seamless_tuple each _
    | newtype name type => exact (each type (List.mem_singleton_self type)).map _
    | map key value =>
      exact (seamless_readMap (each key (by simp [parts])) (each value (by simp [parts]))
        (key.delimits.moves config) (value.delimits.moves config)).map _
    | record name fields => exact seamless_record each name _
    | enumeration name variants =>
      refine seamless_readVariant ?_
      rw [variantReaders_eq_map, List.forall_mem_map]
      exact fun variant member => isSeamless_contentReader name variant.name fun part inside =>
        each part (mem_parts_enumeration member inside)
    | delayed type => exact each (type ()) (List.mem_singleton_self _)
    | ignored => exact seamless_readIgnored
    | textSlice | bytesSlice | any | identifier | embedded => exact absurd trivial here

theorem Recut.eq_nil {input' : Bytes} (recut : Recut [] input') : input' = [] := by
  cases input' with
  | nil => rfl
  | cons =>
    obtain ⟨_, _, same, -⟩ := recut.symm.begins
    cases same

theorem Seamless.whole {read : DecodeM α} (seamless : Seamless read) {input input' : Bytes}
    (recut : Recut input input') {a : α} (found : whole read input = .ok a) : Decoder.whole read input' = .ok a := by
  obtain ⟨after, ran, nothing⟩ := outcome_of_whole found
  obtain ⟨behind, ran', ended⟩ := seamless ⟨input, none, []⟩ input' recut a after ran
  rw [nothing] at ended
  exact whole_of_outcome ran' ended.eq_nil

end
end TypedCbor
