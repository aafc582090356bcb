import TypedCbor.Proofs.Generic
import TypedCbor.Proofs.Taking.Loops

namespace TypedCbor

section
variable {read : Config → DecodeM α}

theorem Delimits.bind (delimits : Delimits read) {next : α → DecodeM β}
    (second : ∀ a, TakesAlone (next a) (next a)) : Delimits fun config => read config >>= next :=
  ⟨fun relaxes => (delimits.takes relaxes).andThen second,
    fun config => (delimits.moves config).bind second⟩

theorem Delimits.map (delimits : Delimits read) (f : α → β) : Delimits fun config => f <$> read config :=
  ⟨fun relaxes => (delimits.takes relaxes).map f fun _ => id, fun config => (delimits.moves config).map f⟩

end

namespace Decoder

theorem delimits_readInteger : Delimits readInteger :=
  delimits_readPlainHeader fun _ _ => takes_ofExcept _

theorem delimits_readFloat : Delimits readFloat :=
  delimits_readPlainHeader fun _ _ => takes_ofExcept _

theorem delimits_readBool : Delimits readBool :=
  delimits_readPlainHeader fun _ _ => takes_ofExcept _

theorem delimits_readText : Delimits readText := by
  refine delimits_readPlainHeader fun _ header => ?_
  split
  · exact (Cursor.takes_readPayload header).andThen (fun _ => takes_ofExcept _)
  · exact takes_throw _ _

theorem delimits_readByte : Delimits readByte :=
  delimits_readInteger.bind fun _ => (takes_pure _).ite (takes_throw _ _)

theorem delimits_readBytes : Delimits readBytes := by
  have same : readBytes = fun config => readHeader config >>= fun opening => _ :=
    funext fun config => @readBytes_eq config
  rw [same]
  refine delimits_readHeader _ fun relaxes header own own' agrees => ?_
  dsimp only
  split
  · exact Cursor.takes_readPayload header
  · exact (takes_enclosed relaxes agrees
      (takes_readElements relaxes (delimits_readByte.twins relaxes))).map _ fun _ => id
  · exact takes_throw _ _

theorem delimits_readInt (kind : IntKind) : Delimits fun config => readInt config kind :=
  delimits_readInteger.bind fun _ => (takes_pure _).ite (takes_throw _ _)

theorem delimits_readChar : Delimits readChar :=
  delimits_readInteger.bind fun _ => (takes_throw _ _).ite ((takes_pure _).ite (takes_throw _ _))

theorem delimits_readTextSlice : Delimits readTextSlice :=
  delimits_readText.bind fun _ => (takes_pure _).ite (takes_throw _ _)

theorem delimits_readBytesSlice : Delimits readBytesSlice :=
  delimits_readBytes.bind fun _ => (takes_pure _).ite (takes_throw _ _)

theorem delimits_readUnit : Delimits readUnit :=
  delimits_readPlainHeader fun _ _ => (takes_pure _).ite (takes_throw _ _)

-- A null is taken with its tags; for anything else the byte in front of it was looked at.
def nullAt (config : Config) (field : Option Element) : DecodeM Bool := do
  let object := (field.map (·.object)).getD false
  let initial ← cursor Cursor.peek
  if initial = nullByte ∨ initial = undefinedByte ∨ (initial = emptyMapByte ∧ object) then
    let _ ← takeTags config
    let _ ← cursor Cursor.readByte
    return true
  else return false

theorem readNull_eq (config : Config) :
    readNull config = readAhead >>= fun _ => (do nullAt config (← get).field) := by
  simp only [readNull, nullAt, discard_bind]

theorem moves_null (config : Config) : Moves (do
    let _ ← takeTags config
    let _ ← cursor Cursor.readByte
    return true) :=
  moves_takeTags fun _ => Cursor.moves_readByte.thenPure _

theorem takes_nullAt {strict lenient : Config} (relaxes : lenient.Relaxes strict) (field : Option Element) :
    Takes (· = false) (nullAt strict field) (nullAt lenient field) := by
  refine Cursor.takes_peek.bind (fun initial => ?_) fun initial _ => ?_
  · split
    · exact takes_takeTags relaxes (fun _ _ _ => Cursor.takes_readByte.andThen fun _ => takes_pure _)
        fun _ => Cursor.moves_readByte.thenPure _
    · exact takes_pure _
  · split
    · exact .inr (moves_null strict)
    · exact .inl (gives_pure rfl)

theorem length_lt_of_nullAt {config : Config} (field : Option Element) {decoder after : Decoder}
    (found : outcome (nullAt config field) decoder = .ok (true, after)) :
    after.rest.length < decoder.rest.length := by
  obtain ⟨⟨initial, between⟩, first, second⟩ := bind_eq_ok.mp (outcome_bind .. ▸ found)
  have kept := Cursor.takes_peek.length_le first
  dsimp only at second
  split at second
  · exact Nat.lt_of_lt_of_le (moves_null config _ _ _ second) kept
  · cases second

theorem takes_readNull {strict lenient : Config} (relaxes : lenient.Relaxes strict) :
    Takes (· = false) (readNull strict) (readNull lenient) := by
  rw [readNull_eq, readNull_eq]
  intro decoder
  refine (takes_readAhead decoder).bind (fun _ between _ => takes_ofField (takes_nullAt relaxes) between) ?_
  intro _ between null after _ found _
  cases null with
  | false => exact .inl rfl
  | true => exact .inr (length_lt_of_nullAt between.field found)

theorem length_lt_of_readNull {config : Config} {decoder after : Decoder}
    (found : outcome (readNull config) decoder = .ok (true, after)) :
    after.rest.length < decoder.rest.length := by
  rw [readNull_eq] at found
  obtain ⟨⟨_, between⟩, first, second⟩ := bind_eq_ok.mp (outcome_bind .. ▸ found)
  exact Nat.lt_of_lt_of_le (length_lt_of_nullAt between.field second) (takes_readAhead.length_le first)

theorem delimits_readOption {read : Config → DecodeM Value} (delimits : Delimits read) :
    Delimits fun config => readOption config (read config) := by
  refine ⟨fun {strict lenient} relaxes => ?_, fun config decoder value after found => ?_⟩
  · refine (takes_readNull relaxes).bind (fun null => ?_) fun null goes => .inr ?_
    · exact (takes_pure _).ite
        ((delimits.takes relaxes).andThen (fun _ => takes_pure _))
    · rw [if_neg (by simp [goes])]
      exact (delimits.moves strict).thenPure _
  · obtain ⟨⟨null, between⟩, first, second⟩ := bind_eq_ok.mp (outcome_bind .. ▸ found)
    cases null with
    | true =>
      cases second
      exact length_lt_of_readNull first
    | false =>
      have moves : Moves (read config >>= fun value => pure (Value.some value)) :=
        (delimits.moves config).thenPure _
      exact Nat.lt_of_lt_of_le (moves _ _ _ second) ((takes_readNull (.refl config)).length_le first)

theorem whole_of_outcome {read : DecodeM α} {input : Bytes} {a : α} {after : Decoder}
    (ran : outcome read { rest := input } = .ok (a, after)) (nothing : after.rest = []) :
    whole read input = .ok a := by
  rw [whole_eq, outcome_bind, ran, ok_bind, outcome_bind]
  simp [finish, nothing]

theorem whole_relaxed {peeks : α → Prop} {read twin : DecodeM α} (takes : Takes peeks read twin)
    {input : Bytes} {a : α} (found : whole read input = .ok a) : whole twin input = .ok a := by
  obtain ⟨after, ran, nothing⟩ := outcome_of_whole found
  obtain ⟨taken, split, law⟩ := takes _ a after ran
  rw [nothing, List.append_nil] at split
  have same := law.whole [] fun _ => by rw [nothing]
  rw [List.append_nil, ← split] at same
  exact whole_of_outcome same rfl

theorem delimits_readEmbedded {read : Config → DecodeM Value} (delimits : Delimits read) :
    Delimits fun config => readEmbedded config (read config) := by
  refine delimits_readPlainHeader fun relaxes header => ?_
  split
  · cases header.length with
    | none => exact takes_throw _ _
    | some length =>
      refine (Cursor.takes_take length).andThen (fun bytes => ?_)
      exact (takes_check fun _ => whole_relaxed (delimits.takes relaxes)).andThen
        (fun _ => takes_pure _)
  · exact takes_throw _ _

theorem delimits_readSequence {ofBytes : Config → Bytes → Except Error (List Value)}
    {ofElements : Config → OpenStructure → DecodeM (List Value × OpenStructure)}
    (same : ∀ {strict lenient : Config}, lenient.Relaxes strict → ofBytes lenient = ofBytes strict)
    (elements : ∀ {strict lenient : Config}, lenient.Relaxes strict → ∀ s,
      Takes (·.2.remaining = none) (ofElements strict s) (ofElements lenient s)) :
    Delimits fun config => readSequence config (ofBytes config) (ofElements config) := by
  refine delimits_readHeader (fun config (opening : Header × List UInt64) => do
      if opening.1.major = .bytes then
        let payload ← cursor (Cursor.readPayload opening.1)
        ofExcept (ofBytes config payload.bytes)
      else enclosed config .list (ofElements config) opening)
    fun relaxes header own own' agrees => ?_
  rw [same relaxes]
  split
  · exact (Cursor.takes_readPayload header).andThen (fun _ => takes_ofExcept _)
  · exact takes_enclosed relaxes agrees (elements relaxes)

theorem delimits_readMap {key value : Config → DecodeM Value} (keys : Delimits key)
    (values : Delimits value) : Delimits fun config => readMap config (key config) (value config) := by
  simp only [readMap_eq]
  exact delimits_readHeader _ fun relaxes header own own' agrees =>
    takes_enclosed relaxes agrees (takes_readEntries relaxes (keys.twins relaxes) (values.twins relaxes))

theorem delimits_readRecord {fields : Config → List (FieldReader (DecodeM Value))}
    (alike : ∀ {strict lenient : Config}, lenient.Relaxes strict →
      List.Forall₂ FieldReader.Alike (fields strict) (fields lenient)) (name expected : String) :
    Delimits fun config => readRecord config name expected (fields config) := by
  simp only [readRecord_eq]
  refine delimits_readHeader _ fun {strict lenient} relaxes header own own' agrees => ?_
  rw [relaxes.shape_eq, ← (alike relaxes).length_eq, ← names_alike (alike relaxes)]
  refine (takes_enclosed relaxes agrees fun s => ?_).map _ fun _ => id
  split
  · exact takes_takeFields relaxes _ 0 (alike relaxes) s
  · exact takes_readFields relaxes (alike relaxes) s

inductive ContentReader.Alike : ContentReader (DecodeM Value) → ContentReader (DecodeM Value) → Prop where
  | unit : Alike .unit .unit
  | content {form : String} {read read' : DecodeM Value} (reads : Twins read read') :
      Alike (.content form read) (.content form read')

structure VariantReader.Alike (variant variant' : VariantReader (DecodeM Value)) : Prop where
  name : variant.name = variant'.name
  content : ContentReader.Alike variant.content variant'.content

theorem contentOf_alike {variants variants' : List (VariantReader (DecodeM Value))}
    (alike : List.Forall₂ VariantReader.Alike variants variants') (name : String) :
    (∃ e, contentOf variants name = .error e) ∨
      ∃ content content', contentOf variants name = .ok content ∧ contentOf variants' name = .ok content' ∧
        ContentReader.Alike content content' := by
  have found : (variants.find? (·.name == name) = none) ∨
      ∃ variant variant', variants.find? (·.name == name) = some variant ∧
        variants'.find? (·.name == name) = some variant' ∧ VariantReader.Alike variant variant' := by
    induction alike with
    | nil => exact .inl rfl
    | @cons variant variant' _ _ first _ ih =>
      rw [List.find?_cons, List.find?_cons, ← first.name]
      cases variant.name == name with
      | true => exact .inr ⟨variant, variant', rfl, rfl, first⟩
      | false => exact ih
  rcases found with none | ⟨variant, variant', found, found', same⟩
  · exact .inl ⟨_, by rw [contentOf, none]⟩
  · exact .inr ⟨variant.content, variant'.content, by rw [contentOf, found], by rw [contentOf, found'],
      same.content⟩

theorem takes_contentOf {peeks : β → Prop} {variants variants' : List (VariantReader (DecodeM Value))}
    (alike : List.Forall₂ VariantReader.Alike variants variants') (name : String)
    {next next' : ContentReader (DecodeM Value) → DecodeM β}
    (second : ∀ content content', ContentReader.Alike content content' →
      Takes peeks (next content) (next' content')) :
    Takes peeks (ofExcept (contentOf variants name) >>= next) (ofExcept (contentOf variants' name) >>= next') := by
  rcases contentOf_alike alike name with ⟨e, failed⟩ | ⟨content, content', found, found', same⟩
  · rw [failed]
    exact takes_throw e _
  · rw [found, found']
    exact second content content' same

def bareVariant (name : String) : ContentReader (DecodeM Value) → DecodeM Value
  | .unit => return .unitVariant name
  | .content form _ => throw (.mismatch (.invalidType .unitVariant form))

theorem takes_bareVariant {content content' : ContentReader (DecodeM Value)}
    (alike : ContentReader.Alike content content') (name : String) :
    TakesAlone (bareVariant name content) (bareVariant name content') := by
  cases alike with
  | unit => exact takes_pure _
  | content => exact takes_throw _ _

theorem delimits_readBareVariant {variants : Config → List (VariantReader (DecodeM Value))}
    (alike : ∀ {strict lenient : Config}, lenient.Relaxes strict →
      List.Forall₂ VariantReader.Alike (variants strict) (variants lenient)) :
    Delimits fun config => readBareVariant config (variants config) := by
  have behind {strict lenient : Config} (relaxes : lenient.Relaxes strict) (payload : TextPayload) :=
    takes_contentOf (alike relaxes) payload.text fun _ _ same => takes_bareVariant same payload.text
  exact ⟨fun relaxes => (delimits_readText.takes relaxes).andThen (behind relaxes),
    fun config => (delimits_readText.moves config).bind (behind (.refl config))⟩

theorem takes_passOver (index : Option Nat) : TakesAlone (passOver index) (passOver index) := by
  cases index with
  | none => exact takes_pure _
  | some index => exact Cursor.takes_skipItem

def behindName (config : Config) (s : OpenStructure) (name : String) :
    ContentReader (DecodeM Value) → DecodeM (Value × OpenStructure)
  | .unit => do
    let (second, s) ← nextElement config s
    passOver second
    return (.unitVariant name, s)
  | .content _ read => do
    match ← nextElement config s with
    | (none, _) => throw (.unsupported (.variantWithoutValue name))
    | (some _, s) =>
      let value ← read
      return (.variant name value, s)

theorem takes_behindName {strict lenient : Config} (relaxes : lenient.Relaxes strict)
    {content content' : ContentReader (DecodeM Value)} (alike : ContentReader.Alike content content')
    (s : OpenStructure) (name : String) :
    Takes (·.2.remaining = none) (behindName strict s name content) (behindName lenient s name content') := by
  cases alike with
  | unit =>
    refine (takes_nextElement relaxes s).bind (fun p => ?_) fun p opens => .inl ?_
    · exact (takes_passOver p.1).andThen (fun _ => takes_pure _)
    · exact Gives.after fun _ => gives_pure opens
  | content reads =>
    refine (takes_nextElement relaxes s).bind (fun p => ?_) fun p _ => .inr ?_
    · rcases p with ⟨_ | index, s⟩
      · exact takes_throw _ _
      · exact reads.takes.andThen (fun _ => takes_pure _)
    · rcases p with ⟨_ | index, s⟩
      · exact moves_throw _
      · exact reads.moves.thenPure _

theorem pairInside_eq (config : Config) (variants : List (VariantReader (DecodeM Value)))
    (s : OpenStructure) : pairInside config variants s = (do
      match ← nextElement config s with
      | (none, _) => throw (.unsupported .variantWithoutName)
      | (some _, s) =>
        let payload ← readText config
        let content ← ofExcept (contentOf variants payload.text)
        behindName config s payload.text content) := by
  unfold pairInside
  congr

theorem takes_pairInside {strict lenient : Config} (relaxes : lenient.Relaxes strict)
    {variants variants' : List (VariantReader (DecodeM Value))}
    (alike : List.Forall₂ VariantReader.Alike variants variants') (s : OpenStructure) :
    Takes (·.2.remaining = none) (pairInside strict variants s) (pairInside lenient variants' s) := by
  rw [pairInside_eq, pairInside_eq]
  have named := fun (s : OpenStructure) (payload : TextPayload) =>
    takes_contentOf alike payload.text fun content content' same =>
      takes_behindName relaxes same s payload.text
  refine (takes_nextElement relaxes s).bind (fun p => ?_) fun p _ => .inr ?_
  · rcases p with ⟨_ | index, s⟩
    · exact takes_throw _ _
    · exact (delimits_readText.takes relaxes).andThen (named s)
  · rcases p with ⟨_ | index, s⟩
    · exact moves_throw _
    · exact (delimits_readText.moves strict).bind (named s)

theorem delimits_readVariantPair {variants : Config → List (VariantReader (DecodeM Value))}
    (alike : ∀ {strict lenient : Config}, lenient.Relaxes strict →
      List.Forall₂ VariantReader.Alike (variants strict) (variants lenient)) :
    Delimits fun config => readVariantPair config (variants config) := by
  simp only [readVariantPair_eq]
  exact delimits_readHeader _ fun relaxes header own own' agrees =>
    takes_enclosed relaxes agrees (takes_pairInside relaxes (alike relaxes))

def variantOf (config : Config) (variants : List (VariantReader (DecodeM Value))) : Major → DecodeM Value
  | .text => readBareVariant config variants
  | .array => readVariantPair config variants
  | found => throw (.unexpectedMajor "enum variant" found)

theorem delimits_variantOf {variants : Config → List (VariantReader (DecodeM Value))}
    (alike : ∀ {strict lenient : Config}, lenient.Relaxes strict →
      List.Forall₂ VariantReader.Alike (variants strict) (variants lenient)) (major : Major) :
    Delimits fun config => variantOf config (variants config) major := by
  cases major with
  | text => exact delimits_readBareVariant alike
  | array => exact delimits_readVariantPair alike
  | _ => exact ⟨fun _ => takes_throw _ _, fun _ => moves_throw _⟩

theorem delimits_readVariant {variants : Config → List (VariantReader (DecodeM Value))}
    (alike : ∀ {strict lenient : Config}, lenient.Relaxes strict →
      List.Forall₂ VariantReader.Alike (variants strict) (variants lenient)) :
    Delimits fun config => readVariant config (variants config) := by
  have each := delimits_variantOf alike
  have behind (config : Config) := Moves.after Cursor.takes_peekMajor fun major => (each major).moves config
  refine ⟨fun {strict lenient} relaxes => ?_, fun config => Moves.after takes_readAhead fun _ => behind config⟩
  refine takes_readAhead.bind (fun _ => ?_) fun _ _ => .inr (behind strict)
  exact Cursor.takes_peekMajor.bind (fun major => (each major).takes relaxes)
    fun major _ => .inr ((each major).moves strict)

theorem delimits_readGeneric (rounds : Nat) : Delimits fun config => readGeneric config rounds := by
  induction rounds with
  | zero => exact ⟨fun _ => takes_throw _ _, fun _ => moves_throw _⟩
  | succ rounds ih =>
    simp only [readGeneric_succ]
    refine delimits_readHeader _ fun relaxes header own own' agrees => ?_
    dsimp only
    split
    · exact (takes_ofExcept _).map _ fun _ => id
    · exact (takes_ofExcept _).map _ fun _ => id
    · exact (Cursor.takes_readPayload header).map _ fun _ => id
    · exact (Cursor.takes_readPayload header).andThen
        (fun _ => (takes_ofExcept _).andThen (fun _ => takes_pure _))
    · exact (takes_enclosed relaxes agrees (takes_readElements relaxes (ih.twins relaxes))).map _ fun _ => id
    · exact (takes_enclosed relaxes agrees
        (takes_readEntries relaxes (ih.twins relaxes) (ih.twins relaxes))).map _ fun _ => id
    · exact takes_ofExcept _
    · exact takes_throw _ _

theorem enclosed_congr {config : Config} {shape : Shape} {opening : Header × List UInt64}
    {read read' : OpenStructure → DecodeM (α × OpenStructure)} {decoder : Decoder}
    (same : ∀ s, read s decoder = read' s decoder) :
    enclosed config shape read opening decoder = enclosed config shape read' opening decoder := by
  unfold enclosed
  refine ran_bind_congr fun s after found => ?_
  obtain ⟨_, _, kept⟩ := map_eq_ok.mp (outcome_ofExcept .. ▸ found)
  cases kept
  exact ran_bind (same s) _

theorem readGeneric_enough {config : Config} {rounds rounds' : Nat} {decoder : Decoder}
    (enough : decoder.rest.length < rounds) (enough' : decoder.rest.length < rounds') :
    readGeneric config rounds decoder = readGeneric config rounds' decoder := by
  induction rounds generalizing rounds' decoder with
  | zero => cases enough
  | succ rounds ih =>
    obtain ⟨rounds', rfl⟩ : ∃ n, rounds' = n + 1 := ⟨rounds' - 1, by omega⟩
    rw [readGeneric_succ, readGeneric_succ]
    refine ran_bind_congr fun opening after found => ?_
    have shorter := moves_readHeader config _ _ _ found
    have agree : ∀ inner : Decoder, inner.rest.length ≤ after.rest.length →
        readGeneric config rounds inner = readGeneric config rounds' inner :=
      fun inner within => ih (by omega) (by omega)
    have moves := (delimits_readGeneric rounds).moves config
    rcases opening with ⟨header, own⟩
    dsimp only
    cases header.major with
    | array =>
      refine ran_map (enclosed_congr fun s => ?_) _
      exact elementRounds_agree moves agree (Nat.le_refl _) (Nat.lt_succ_self _) (Nat.lt_succ_self _)
    | map =>
      refine ran_map (enclosed_congr fun s => ?_) _
      exact entryRounds_agree moves moves agree agree (Nat.le_refl _) (Nat.lt_succ_self _) (Nat.lt_succ_self _)
    | unsigned | negative | bytes | text | tag | simple => rfl

theorem delimits_readAny : Delimits readAny := by
  refine ⟨fun {strict lenient} relaxes => ?_, fun config decoder value after found => ?_⟩
  · refine takes_rounds (· + 1) (fun rounds => (delimits_readGeneric rounds).takes relaxes) ?_ ?_
    all_goals exact fun count decoder enough => outcome_congr (readGeneric_enough enough (Nat.lt_succ_self _))
  · exact (delimits_readGeneric _).moves config decoder value after found

end Decoder

open Decoder

theorem alike_slots {types : List Ty} (each : ∀ type ∈ types, Delimits fun config => type.read config)
    {strict lenient : Config} (relaxes : lenient.Relaxes strict) :
    List.Forall₂ Slot.Alike (slots strict types) (slots lenient types) := by
  induction types with
  | nil => exact .nil
  | cons type types ih =>
    rw [List.forall_mem_cons] at each
    exact .cons ⟨each.1.twins relaxes, rfl⟩ (ih each.2)

theorem alike_fieldReaders {fields : List (Field Ty)}
    (each : ∀ type ∈ fields.map Field.type, Delimits fun config => type.read config)
    {strict lenient : Config} (relaxes : lenient.Relaxes strict) :
    List.Forall₂ FieldReader.Alike (fieldReaders strict fields) (fieldReaders lenient fields) := by
  induction fields with
  | nil => exact .nil
  | cons field fields ih =>
    rw [List.map_cons, List.forall_mem_cons] at each
    exact .cons ⟨each.1.twins relaxes, rfl, rfl, rfl⟩ (ih each.2)

theorem delimits_tuple {types : List Ty} (each : ∀ type ∈ types, Delimits fun config => type.read config)
    (expected : String) :
    Delimits fun config => Value.tuple <$> readTuple config expected (slots config types) := by
  refine Delimits.map (delimits_readSequence (fun relaxes => ?_) fun relaxes s => ?_) _
  · funext bytes
    have alike := alike_slots each relaxes
    rw [tupleOfBytes, tupleOfBytes, fillFromBytes_alike _ _ alike, alike.length_eq]
  · exact takes_fillFromElements relaxes _ _ (alike_slots each relaxes) s

theorem alike_contentReader (parent name : String) {content : Content Ty}
    (each : ∀ type ∈ content.parts, Delimits fun config => type.read config)
    {strict lenient : Config} (relaxes : lenient.Relaxes strict) :
    ContentReader.Alike (contentReader strict parent name content)
      (contentReader lenient parent name content) := by
  cases content with
  | unit => exact .unit
  | newtype type => exact .content ((each type (List.mem_singleton_self type)).twins relaxes)
  | tuple types => exact .content ((delimits_tuple each _).twins relaxes)
  | record fields =>
    exact .content ((delimits_readRecord (fun relaxes => alike_fieldReaders each relaxes) name _).twins relaxes)

theorem alike_variantReaders (parent : String) {variants : List (Variant Ty)}
    (each : ∀ type ∈ variants.flatMap fun variant => variant.content.parts,
      Delimits fun config => type.read config)
    {strict lenient : Config} (relaxes : lenient.Relaxes strict) :
    List.Forall₂ VariantReader.Alike (variantReaders strict parent variants)
      (variantReaders lenient parent variants) := by
  induction variants with
  | nil => exact .nil
  | cons variant variants ih =>
    rw [List.flatMap_cons, List.forall_mem_append] at each
    exact .cons ⟨rfl, alike_contentReader parent variant.name each.1 relaxes⟩ (ih each.2)

theorem Ty.delimits (type : Ty) : Delimits fun config => type.read config := by
  induction type using Ty.induction with
  | step type each =>
    cases type with
    | bool => exact delimits_readBool.map _
    | int kind => exact delimits_readInt kind
    | single => exact delimits_readFloat.map _
    | double => exact delimits_readFloat.map _
    | char => exact delimits_readChar
    | text => exact delimits_readText.map _
    | textSlice => exact delimits_readTextSlice
    | bytes => exact delimits_readBytes.map _
    | bytesSlice => exact delimits_readBytesSlice
    | unit | unitStruct => exact delimits_readUnit
    | option type => exact delimits_readOption (each type (List.mem_singleton_self type))
    | seq type =>
      have inner := each type (List.mem_singleton_self type)
      exact Delimits.map (delimits_readSequence (fun _ => rfl) fun relaxes =>
        takes_readElements relaxes (inner.twins relaxes)) _
    | tuple types => exact delimits_tuple each _
    | tupleStruct name types => exact delimits_tuple each _
    | newtype name type => exact (each type (List.mem_singleton_self type)).map _
    | map key value =>
      exact (delimits_readMap (each key (by simp [parts])) (each value (by simp [parts]))).map _
    | record name fields =>
      exact delimits_readRecord (fun relaxes => alike_fieldReaders each relaxes) name _
    | enumeration name variants =>
      exact delimits_readVariant fun relaxes => alike_variantReaders name each relaxes
    | embedded type => exact delimits_readEmbedded (each type (List.mem_singleton_self type))
    | delayed type => exact each (type ()) (List.mem_singleton_self _)
    | any => exact delimits_readAny
    | identifier => exact delimits_readText.map _
    | ignored => exact delimits_readIgnored

-- What holds of the reader of an item's tags, whatever is read behind them, holds of the reader of every type, if it does
-- of those that look at the item first and of the one that passes it over.
theorem Ty.read_induction {config : Config} {P : {α : Type} → DecodeM α → Prop}
    (bind : ∀ {α β : Type} {read : DecodeM α}, P read → ∀ next : α → DecodeM β, P (read >>= next))
    (tags : P (takeTags config)) (option : ∀ {read : DecodeM Value}, P read → P (readOption config read))
    (variant : ∀ variants, P (readVariant config variants)) (any : P (readAny config)) (ignored : P readIgnored)
    (type : Ty) : P (type.read config) := by
  have map {α β : Type} {read : DecodeM α} (holds : P read) (f : α → β) : P (f <$> read) := by
    rw [map_eq_pure_bind]
    exact bind holds _
  have header : P (readHeader config) := bind tags _
  have plain : P (readPlainHeader config) := bind header _
  have integer : P (readInteger config) := bind plain _
  have text : P (readText config) := bind plain _
  induction type using Ty.induction with
  | step type each =>
    cases type with
    | bool | single | double => exact map (bind plain _) _
    | int | char => exact bind integer _
    | text | identifier => exact map text _
    | textSlice => exact bind text _
    | bytes | seq | tuple | tupleStruct => exact map (bind header _) _
    | bytesSlice => exact bind (bind header _) _
    | unit | unitStruct | embedded => exact bind plain _
    | option type => exact option (each type (List.mem_singleton_self type))
    | newtype name type => exact map (each type (List.mem_singleton_self type)) _
    | map => exact map (bind (bind header _) _) _
    | record => exact bind (bind header _) _
    | enumeration => exact variant _
    | delayed type => exact each (type ()) (List.mem_singleton_self _)
    | any => exact any
    | ignored => exact ignored

end TypedCbor
