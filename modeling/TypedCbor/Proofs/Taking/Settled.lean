import TypedCbor.Proofs.Taking.Typed

namespace TypedCbor

def Decoder.Settled (decoder : Decoder) : Prop := decoder.field = none ∧ decoder.pendingTags = []

def Settles (read : DecodeM α) : Prop :=
  ∀ decoder a after, outcome read decoder = .ok (a, after) → after.Settled

def Spares (read : DecodeM α) : Prop :=
  ∀ decoder a after, outcome read decoder = .ok (a, after) →
    after.field = decoder.field ∧ after.pendingTags = decoder.pendingTags

-- A reader that leaves no tags behind if it finds none, whatever it announces.
def KeepsClear (read : DecodeM α) : Prop :=
  ∀ decoder a after, decoder.pendingTags = [] → outcome read decoder = .ok (a, after) →
    after.pendingTags = []

def StaysSettled (read : DecodeM α) : Prop :=
  ∀ decoder a after, decoder.Settled → outcome read decoder = .ok (a, after) → after.Settled

section
variable {α β : Type} {read : DecodeM α} {next : α → DecodeM β}

theorem Spares.staysSettled (spares : Spares read) : StaysSettled read := by
  intro decoder a after settled found
  obtain ⟨field, tags⟩ := spares decoder a after found
  exact ⟨field.trans settled.1, tags.trans settled.2⟩

theorem Spares.keepsClear (spares : Spares read) : KeepsClear read :=
  fun decoder a after clear found => (spares decoder a after found).2.trans clear

theorem Settles.keepsClear (settles : Settles read) : KeepsClear read :=
  fun decoder a after _ found => (settles decoder a after found).2

theorem spares_pure (a : α) : Spares (pure a) := by
  intro decoder a' after found
  cases found
  exact ⟨rfl, rfl⟩

theorem spares_throw (e : Error) : Spares (throw e : DecodeM α) := by
  intro decoder a after found
  cases found

theorem spares_cursor (read : ReadM α) : Spares (Decoder.cursor read) := by
  intro decoder a after found
  obtain ⟨rest, -, rfl⟩ := Decoder.rest_of_cursor found
  exact ⟨rfl, rfl⟩

theorem spares_ofExcept (result : Except Error α) : Spares (Decoder.ofExcept result) := by
  cases result with
  | ok a => exact spares_pure a
  | error e => exact spares_throw e

theorem Spares.bind (first : Spares read) (second : ∀ a, Spares (next a)) : Spares (read >>= next) := by
  intro decoder b after found
  obtain ⟨⟨a, between⟩, here, there⟩ := bind_eq_ok.mp (outcome_bind .. ▸ found)
  obtain ⟨field, tags⟩ := first decoder a between here
  obtain ⟨field', tags'⟩ := second a between b after there
  exact ⟨field'.trans field, tags'.trans tags⟩

theorem Spares.ite {c : Prop} [Decidable c] {other : DecodeM α} (yes : Spares read) (no : Spares other) :
    Spares (if c then read else other) := by
  split
  · exact yes
  · exact no

theorem Settles.bind (first : Settles read) (second : ∀ a, Spares (next a)) : Settles (read >>= next) := by
  intro decoder b after found
  obtain ⟨⟨a, between⟩, here, there⟩ := bind_eq_ok.mp (outcome_bind .. ▸ found)
  exact (second a).staysSettled between b after (first decoder a between here) there

theorem Settles.map (settles : Settles read) (f : α → β) : Settles (f <$> read) := by
  intro decoder b after found
  rw [outcome_map] at found
  obtain ⟨⟨a, between⟩, here, same⟩ := map_eq_ok.mp found
  cases same
  exact settles decoder a _ here

theorem Settles.after (second : ∀ a, Settles (next a)) : Settles (read >>= next) := by
  intro decoder b after found
  obtain ⟨⟨a, between⟩, -, there⟩ := bind_eq_ok.mp (outcome_bind .. ▸ found)
  exact second a between b after there

theorem StaysSettled.map (stays : StaysSettled read) (f : α → β) : StaysSettled (f <$> read) := by
  intro decoder b after settled found
  rw [outcome_map] at found
  obtain ⟨⟨a, between⟩, here, same⟩ := map_eq_ok.mp found
  cases same
  exact stays decoder a _ settled here

theorem settles_throw (e : Error) : Settles (throw e : DecodeM α) := by
  intro decoder a after found
  cases found

theorem KeepsClear.bind (first : KeepsClear read) (second : ∀ a, KeepsClear (next a)) :
    KeepsClear (read >>= next) := by
  intro decoder b after clear found
  obtain ⟨⟨a, between⟩, here, there⟩ := bind_eq_ok.mp (outcome_bind .. ▸ found)
  exact second a between b after (first decoder a between clear here) there

theorem keepsClear_pure (a : α) : KeepsClear (pure a) := (spares_pure a).keepsClear

theorem keepsClear_throw (e : Error) : KeepsClear (throw e : DecodeM α) := (spares_throw e).keepsClear

theorem keepsClear_modify {f : Decoder → Decoder} (same : ∀ decoder, (f decoder).pendingTags = decoder.pendingTags) :
    KeepsClear (modify f) := by
  intro decoder a after clear found
  cases found
  exact (same decoder).trans clear

end

namespace Decoder

variable {config : Config}

theorem settles_takeTags (config : Config) : Settles (takeTags config) := by
  intro decoder own after found
  rw [outcome_takeTags] at found
  obtain ⟨p, -, found⟩ := bind_eq_ok.mp found
  obtain ⟨own', -, same⟩ := map_eq_ok.mp found
  cases same
  exact ⟨rfl, rfl⟩

theorem settles_readHeader (config : Config) : Settles (readHeader config) :=
  (settles_takeTags config).bind fun _ => (spares_cursor _).bind fun _ => spares_pure _

theorem settles_readPlainHeader (config : Config) : Settles (readPlainHeader config) :=
  (settles_readHeader config).bind fun _ => spares_pure _

theorem keepsClear_clearField : KeepsClear clearField := keepsClear_modify fun _ => rfl

theorem keepsClear_nextByKey (rounds : Nat) (s : OpenStructure) : KeepsClear (nextByKey config rounds s) := by
  induction rounds generalizing s with
  | zero => exact keepsClear_throw _
  | succ rounds ih =>
    intro decoder p after clear found
    cases keyRound_of_nextByKey found with
    | ended | announced => exact clear
    | passed _ _ _ _ _ _ goes =>
      refine ih _ _ _ _ ?_ goes
      exact clear

theorem keepsClear_nextElement (s : OpenStructure) : KeepsClear (nextElement config s) := by
  unfold nextElement
  split
  · exact fun decoder a after clear found => keepsClear_nextByKey _ s decoder a after clear found
  · unfold nextByPosition
    refine (spares_cursor _).keepsClear.bind fun ended => ?_
    split
    · exact keepsClear_clearField.bind fun _ => keepsClear_pure _
    · refine KeepsClear.bind ?_ fun _ => keepsClear_pure _
      exact keepsClear_modify fun _ => rfl

theorem settled_of_endStructure {s : OpenStructure} {decoder after : Decoder} (clear : decoder.pendingTags = [])
    (found : outcome (endStructure s) decoder = .ok ((), after)) : after.Settled := by
  obtain ⟨⟨_, between⟩, cleared, found⟩ := bind_eq_ok.mp (outcome_bind .. ▸ found)
  cases cleared
  have cleared : Settled { decoder with field := none } := ⟨rfl, clear⟩
  refine Spares.staysSettled ?_ _ _ _ cleared found
  split
  · refine (spares_cursor _).bind fun closed => (spares_pure _).ite ?_
    exact (spares_cursor _).bind fun _ => spares_throw _
  · exact spares_pure _
  · exact spares_throw _

theorem staysSettled_enclosed {shape : Shape} {read : OpenStructure → DecodeM (α × OpenStructure)}
    (keeps : ∀ s, KeepsClear (read s)) (opening : Header × List UInt64) :
    StaysSettled (enclosed config shape read opening) := by
  intro decoder a after settled found
  obtain ⟨⟨s, first⟩, begun, found⟩ := bind_eq_ok.mp (outcome_bind .. ▸ found)
  obtain ⟨⟨p, second⟩, inside, found⟩ := bind_eq_ok.mp (outcome_bind .. ▸ found)
  obtain ⟨⟨_, third⟩, ended, found⟩ := bind_eq_ok.mp (outcome_bind .. ▸ found)
  cases found
  have clear := (spares_ofExcept _).keepsClear _ _ _ settled.2 begun
  exact settled_of_endStructure (keeps s _ _ _ clear inside) ended

theorem settles_behindHeader {next : Header × List UInt64 → DecodeM α}
    (second : ∀ opening, StaysSettled (next opening)) : Settles (readHeader config >>= next) := by
  intro decoder a after found
  obtain ⟨⟨opening, between⟩, here, there⟩ := bind_eq_ok.mp (outcome_bind .. ▸ found)
  exact second opening between a after (settles_readHeader config _ _ _ here) there

theorem settles_readIgnored : Settles readIgnored := by
  intro decoder a after found
  obtain ⟨⟨_, between⟩, cleared, found⟩ := bind_eq_ok.mp (outcome_bind .. ▸ found)
  cases cleared
  have spares : Spares (do cursor Cursor.skipItem; return Value.visited .ignored .unit) :=
    (spares_cursor _).bind fun _ => spares_pure _
  have cleared : Settled { decoder with pendingTags := [], field := none } := ⟨rfl, rfl⟩
  exact spares.staysSettled _ _ _ cleared found

section
variable {α β : Type} {item : DecodeM α} {key : DecodeM α} {value : DecodeM β}

theorem keepsClear_elementRounds (settles : Settles item) (rounds : Nat) (s : OpenStructure) :
    KeepsClear (elementRounds config item rounds s) := by
  induction rounds generalizing s with
  | zero => exact keepsClear_throw _
  | succ rounds ih =>
    rw [elementRounds]
    refine (keepsClear_nextElement s).bind fun p => ?_
    rcases p with ⟨_ | index, s⟩
    · exact keepsClear_pure _
    · exact settles.keepsClear.bind fun _ => (ih s).bind fun _ => keepsClear_pure _

theorem keepsClear_readElements (settles : Settles item) (s : OpenStructure) :
    KeepsClear (readElements config item s) :=
  fun decoder a after clear found => keepsClear_elementRounds settles _ s decoder a after clear found

theorem keepsClear_entryRounds (settlesKey : Settles key) (settlesValue : Settles value) (rounds : Nat)
    (s : OpenStructure) : KeepsClear (entryRounds config key value rounds s) := by
  induction rounds generalizing s with
  | zero => exact keepsClear_throw _
  | succ rounds ih =>
    rw [entryRounds]
    refine (keepsClear_nextElement s).bind fun p => ?_
    rcases p with ⟨_ | index, s⟩
    · exact keepsClear_pure _
    · refine settlesKey.keepsClear.bind fun k => (keepsClear_nextElement s).bind fun p => ?_
      rcases p with ⟨_ | index, s⟩
      · exact keepsClear_throw _
      · exact settlesValue.keepsClear.bind fun _ => (ih s).bind fun _ => keepsClear_pure _

theorem keepsClear_readEntries (settlesKey : Settles key) (settlesValue : Settles value)
    (s : OpenStructure) : KeepsClear (readEntries config key value s) :=
  fun decoder a after clear found =>
    keepsClear_entryRounds settlesKey settlesValue _ s decoder a after clear found

end

theorem keepsClear_fillFromElements (expected : String) (filled : Nat) {slots : List (Slot (DecodeM Value))}
    (settle : ∀ slot ∈ slots, Settles slot.read) (s : OpenStructure) :
    KeepsClear (fillFromElements config expected filled slots s) := by
  induction slots generalizing filled s with
  | nil => exact keepsClear_pure _
  | cons slot slots ih =>
    rw [List.forall_mem_cons] at settle
    rw [fillFromElements]
    refine (keepsClear_nextElement s).bind fun p => ?_
    rcases p with ⟨_ | index, s⟩
    · exact keepsClear_throw _
    · exact settle.1.keepsClear.bind fun _ => (ih _ settle.2 s).bind fun _ => keepsClear_pure _

section
variable {fields : List (FieldReader (DecodeM Value))} (settle : ∀ field ∈ fields, Settles field.read)
include settle

theorem keepsClear_takeFields (expected : String) (taken : Nat) (s : OpenStructure) :
    KeepsClear (takeFields config expected taken fields s) := by
  induction fields generalizing taken s with
  | nil => exact keepsClear_pure _
  | cons field fields ih =>
    rw [List.forall_mem_cons] at settle
    rw [takeFields]
    refine (keepsClear_nextElement s).bind fun p => ?_
    rcases p with ⟨_ | index, s⟩
    · cases field.fallback with
      | some value => exact (ih settle.2 _ s).bind fun _ => keepsClear_pure _
      | none => exact keepsClear_throw _
    · exact settle.1.keepsClear.bind fun _ => (ih settle.2 _ s).bind fun _ => keepsClear_pure _

theorem keepsClear_fieldRounds (rounds : Nat) (s : OpenStructure) (seen : List (String × Value)) :
    KeepsClear (fieldRounds config fields rounds s seen) := by
  induction rounds generalizing s seen with
  | zero => exact keepsClear_throw _
  | succ rounds ih =>
    rw [fieldRounds]
    refine (keepsClear_nextElement s).bind fun p => ?_
    rcases p with ⟨_ | index, s⟩
    · exact keepsClear_pure _
    · dsimp only
      cases known : fields.find? (·.name == s.shape.elementName index) with
      | none => exact (settles_readIgnored.map _).keepsClear.bind fun _ => ih s seen
      | some field =>
        dsimp only
        split
        · exact keepsClear_throw _
        · exact (settle field (List.mem_of_find?_eq_some known)).keepsClear.bind fun _ => ih s _

theorem keepsClear_readFields (s : OpenStructure) : KeepsClear (readFields config fields s) := by
  intro decoder a after clear found
  have loop := (@keepsClear_fieldRounds config fields settle (decoder.rest.length + 1) s []).bind fun p =>
    (spares_ofExcept (fields.mapM (FieldReader.complete p.1))).keepsClear.bind fun values =>
      keepsClear_pure (values, p.2)
  exact loop decoder a after clear found

theorem settles_readRecord (name expected : String) : Settles (readRecord config name expected fields) := by
  rw [readRecord_eq]
  refine settles_behindHeader fun opening => StaysSettled.map (staysSettled_enclosed (fun s => ?_) opening) _
  split
  · exact keepsClear_takeFields settle _ 0 s
  · exact keepsClear_readFields settle s

end

theorem settles_readInteger : Settles (readInteger config) :=
  (settles_readPlainHeader config).bind fun _ => spares_ofExcept _

theorem settles_readFloat : Settles (readFloat config) :=
  (settles_readPlainHeader config).bind fun _ => spares_ofExcept _

theorem settles_readText : Settles (readText config) := by
  refine (settles_readPlainHeader config).bind fun header => Spares.ite ?_ (spares_throw _)
  exact (spares_cursor _).bind fun _ => spares_ofExcept _

theorem settles_readByte : Settles (readByte config) :=
  settles_readInteger.bind fun _ => (spares_pure _).ite (spares_throw _)

theorem settles_readBytes : Settles (readBytes config) := by
  rw [readBytes_eq]
  refine settles_behindHeader fun opening => ?_
  split
  · exact (spares_cursor _).staysSettled
  · exact (staysSettled_enclosed (keepsClear_readElements settles_readByte) opening).map _
  · exact (spares_throw _).staysSettled

theorem settles_readSequence {ofBytes : Bytes → Except Error (List Value)}
    {ofElements : OpenStructure → DecodeM (List Value × OpenStructure)} (keeps : ∀ s, KeepsClear (ofElements s)) :
    Settles (readSequence config ofBytes ofElements) := by
  rw [readSequence_eq]
  refine settles_behindHeader fun opening => ?_
  split
  · exact ((spares_cursor _).bind fun _ => spares_ofExcept _).staysSettled
  · exact staysSettled_enclosed keeps opening

theorem settled_of_readNull {decoder after : Decoder}
    (found : outcome (readNull config) decoder = .ok (true, after)) : after.Settled := by
  rw [readNull_eq] at found
  obtain ⟨⟨_, between⟩, -, found⟩ := bind_eq_ok.mp (outcome_bind .. ▸ found)
  obtain ⟨⟨decoder', between'⟩, -, found⟩ := bind_eq_ok.mp (outcome_bind .. ▸ found)
  obtain ⟨⟨initial, between''⟩, -, found⟩ := bind_eq_ok.mp (outcome_bind .. ▸ found)
  have taken : Settles (do
      let _ ← takeTags config
      let _ ← cursor Cursor.readByte
      return true) :=
    (settles_takeTags config).bind fun _ => (spares_cursor _).bind fun _ => spares_pure _
  dsimp only at found
  split at found
  · exact taken _ _ _ found
  · cases found

theorem settles_readOption {read : DecodeM Value} (settles : Settles read) : Settles (readOption config read) := by
  intro decoder value after found
  obtain ⟨⟨null, between⟩, first, second⟩ := bind_eq_ok.mp (outcome_bind .. ▸ found)
  cases null with
  | false =>
    have inner : Settles (read >>= fun value => pure (Value.some value)) := settles.bind fun _ => spares_pure _
    exact inner between value after second
  | true =>
    cases second
    exact settled_of_readNull first

theorem settles_readEmbedded (read : DecodeM Value) : Settles (readEmbedded config read) := by
  refine (settles_readPlainHeader config).bind fun header => Spares.ite ?_ (spares_throw _)
  cases header.length with
  | none => exact spares_throw _
  | some length => exact (spares_cursor _).bind fun _ => (spares_ofExcept _).bind fun _ => spares_pure _

theorem keepsClear_passOver (index : Option Nat) : KeepsClear (passOver index) := by
  cases index with
  | none => exact keepsClear_pure _
  | some index => exact (spares_cursor _).keepsClear

theorem keepsClear_behindName {content : ContentReader (DecodeM Value)}
    (settle : ∀ form read, content = .content form read → Settles read) (s : OpenStructure) (name : String) :
    KeepsClear (behindName config s name content) := by
  cases content with
  | unit =>
    exact (keepsClear_nextElement s).bind fun p => (keepsClear_passOver p.1).bind fun _ => keepsClear_pure _
  | content form read =>
    refine (keepsClear_nextElement s).bind fun p => ?_
    rcases p with ⟨_ | index, s⟩
    · exact keepsClear_throw _
    · exact (settle form read rfl).keepsClear.bind fun _ => keepsClear_pure _

section
variable {variants : List (VariantReader (DecodeM Value))}
  (settle : ∀ variant ∈ variants, ∀ form read, variant.content = .content form read → Settles read)
include settle

theorem keepsClear_pairInside (s : OpenStructure) : KeepsClear (pairInside config variants s) := by
  rw [pairInside_eq]
  refine (keepsClear_nextElement s).bind fun p => ?_
  rcases p with ⟨_ | index, s⟩
  · exact keepsClear_throw _
  · refine settles_readText.keepsClear.bind fun payload => ?_
    dsimp only [contentOf]
    cases known : variants.find? (·.name == payload.text) with
    | none => exact keepsClear_throw _
    | some variant => exact keepsClear_behindName (settle variant (List.mem_of_find?_eq_some known)) s _

theorem settles_readVariant : Settles (readVariant config variants) := by
  refine Settles.after fun _ => Settles.after fun major => ?_
  split
  · refine settles_readText.bind fun payload => (spares_ofExcept _).bind fun content => ?_
    cases content with
    | unit => exact spares_pure _
    | content => exact spares_throw _
  · rw [readVariantPair_eq]
    exact settles_behindHeader fun opening => staysSettled_enclosed (keepsClear_pairInside settle) opening
  · exact settles_throw _

end

theorem settles_readGeneric (rounds : Nat) : Settles (readGeneric config rounds) := by
  induction rounds with
  | zero => exact settles_throw _
  | succ rounds ih =>
    rw [readGeneric_succ]
    refine settles_behindHeader fun opening => ?_
    split
    · exact (spares_ofExcept _).staysSettled.map _
    · exact (spares_ofExcept _).staysSettled.map _
    · exact (spares_cursor _).staysSettled.map _
    · exact ((spares_cursor _).bind fun _ => (spares_ofExcept _).bind fun _ => spares_pure _).staysSettled
    · exact (staysSettled_enclosed (keepsClear_readElements ih) opening).map _
    · exact (staysSettled_enclosed (keepsClear_readEntries ih ih) opening).map _
    · exact (spares_ofExcept _).staysSettled
    · exact (spares_throw _).staysSettled

end Decoder

open Decoder

theorem settle_slots {config : Config} {types : List Ty} (each : ∀ type ∈ types, Settles (type.read config)) :
    ∀ slot ∈ slots config types, Settles slot.read := by
  induction types with
  | nil => exact fun slot member => absurd member List.not_mem_nil
  | cons type types ih =>
    rw [List.forall_mem_cons] at each
    exact List.forall_mem_cons.mpr ⟨each.1, ih each.2⟩

theorem settle_fieldReaders {config : Config} {fields : List (Field Ty)}
    (each : ∀ type ∈ fields.map Field.type, Settles (type.read config)) :
    ∀ field ∈ fieldReaders config fields, Settles field.read := by
  induction fields with
  | nil => exact fun field member => absurd member List.not_mem_nil
  | cons field fields ih =>
    rw [List.map_cons, List.forall_mem_cons] at each
    exact List.forall_mem_cons.mpr ⟨each.1, ih each.2⟩

theorem settles_tuple {config : Config} {types : List Ty} (each : ∀ type ∈ types, Settles (type.read config))
    (expected : String) : Settles (Value.tuple <$> readTuple config expected (slots config types)) :=
  (settles_readSequence fun s => keepsClear_fillFromElements expected 0 (settle_slots each) s).map _

theorem settle_variantReaders {config : Config} (parent : String) {variants : List (Variant Ty)}
    (each : ∀ type ∈ variants.flatMap fun variant => variant.content.parts, Settles (type.read config)) :
    ∀ variant ∈ variantReaders config parent variants, ∀ form read, variant.content = .content form read →
      Settles read := by
  induction variants with
  | nil => exact fun variant member => absurd member List.not_mem_nil
  | cons variant variants ih =>
    rw [List.flatMap_cons, List.forall_mem_append] at each
    refine List.forall_mem_cons.mpr ⟨fun form read known => ?_, ih each.2⟩
    rcases variant with ⟨name, content⟩
    cases content with
    | unit => cases known
    | newtype type =>
      cases known
      exact each.1 type (List.mem_singleton_self type)
    | tuple types =>
      cases known
      exact settles_tuple each.1 _
    | record fields =>
      cases known
      exact settles_readRecord (settle_fieldReaders each.1) name _

theorem Ty.settles (config : Config) (type : Ty) : Settles (type.read config) := by
  induction type using Ty.induction with
  | step type each =>
    cases type with
    | bool => exact ((settles_readPlainHeader config).bind fun _ => spares_ofExcept _).map _
    | int kind => exact settles_readInteger.bind fun _ => (spares_pure _).ite (spares_throw _)
    | single | double => exact settles_readFloat.map _
    | char =>
      exact settles_readInteger.bind fun _ =>
        (spares_throw _).ite ((spares_pure _).ite (spares_throw _))
    | text | identifier => exact settles_readText.map _
    | textSlice => exact settles_readText.bind fun _ => (spares_pure _).ite (spares_throw _)
    | bytes => exact settles_readBytes.map _
    | bytesSlice => exact settles_readBytes.bind fun _ => (spares_pure _).ite (spares_throw _)
    | unit | unitStruct =>
      exact (settles_readPlainHeader config).bind fun _ => (spares_pure _).ite (spares_throw _)
    | option type => exact settles_readOption (each type (List.mem_singleton_self type))
    | seq type =>
      exact (settles_readSequence (keepsClear_readElements (each type (List.mem_singleton_self type)))).map _
    | tuple types => exact settles_tuple each _
    | tupleStruct name types => exact settles_tuple each _
    | newtype name type => exact (each type (List.mem_singleton_self type)).map _
    | map key value =>
      simp only [Ty.read, readMap_eq]
      refine (settles_behindHeader fun opening => staysSettled_enclosed ?_ opening).map _
      exact keepsClear_readEntries (each key (by simp [parts])) (each value (by simp [parts]))
    | record name fields => exact settles_readRecord (settle_fieldReaders each) name _
    | enumeration name variants => exact settles_readVariant (settle_variantReaders name each)
    | embedded type => exact settles_readEmbedded _
    | delayed type => exact each (type ()) (List.mem_singleton_self _)
    | any => exact fun decoder value after found => settles_readGeneric _ decoder value after found
    | ignored => exact settles_readIgnored

end TypedCbor
