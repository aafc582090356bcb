import TypedCbor.Proofs.DeclaredTags

namespace TypedCbor

open Decoder

def Decoder.alone (read : DecodeM α) : DecodeM α := do
  modify fun decoder => ⟨decoder.rest, none, []⟩
  read

theorem Decoder.Settled.eq {decoder : Decoder} (settled : decoder.Settled) : decoder = ⟨decoder.rest, none, []⟩ := by
  rcases decoder with ⟨rest, field, pendingTags⟩
  obtain ⟨rfl, rfl⟩ : field = none ∧ pendingTags = [] := settled
  rfl

theorem Decoder.ran_alone (read : DecodeM α) {decoder : Decoder} (settled : decoder.Settled) :
    read decoder = alone read decoder := by
  rw [settled.eq]
  rfl

-- Two decoders in front of one item that tell it alike which tags are its own and whether an empty map is its null.
structure Decoder.Alike (config : Config) (decoder decoder' : Decoder) : Prop where
  rest : decoder'.rest = decoder.rest
  own : ∀ tags behind, outcome Cursor.readTags decoder.rest = .ok (tags, behind) →
    ItemReader.ownTags config decoder'.field (decoder'.pendingTags ++ tags) =
      ItemReader.ownTags config decoder.field (decoder.pendingTags ++ tags)
  object : (decoder'.field.map (·.object)).getD false = (decoder.field.map (·.object)).getD false

-- A reader that goes by nothing else of what is armed.
def Heeds (config : Config) (read : DecodeM α) : Prop :=
  ∀ decoder decoder', decoder.Alike config decoder' → outcome read decoder' = outcome read decoder

section
variable {config : Config} {α β : Type} {read : DecodeM α}

theorem Heeds.bind (heeds : Heeds config read) (next : α → DecodeM β) : Heeds config (read >>= next) := by
  intro decoder decoder' alike
  rw [outcome_bind, outcome_bind, heeds decoder decoder' alike]

theorem heeds_alone (read : DecodeM α) : Heeds config (alone read) := by
  intro decoder decoder' alike
  change outcome read ⟨decoder'.rest, none, []⟩ = outcome read ⟨decoder.rest, none, []⟩
  rw [alike.rest]

theorem Heeds.ite {c : Prop} [Decidable c] {other : DecodeM α} (yes : Heeds config read) (no : Heeds config other) :
    Heeds config (if c then read else other) := by
  split
  · exact yes
  · exact no

theorem Decoder.Alike.ahead {decoder decoder' : Decoder} (alike : decoder.Alike config decoder') {tags : List UInt64}
    {behind : Bytes} (tagged : outcome Cursor.readTags decoder.rest = .ok (tags, behind)) :
    Decoder.Alike config ⟨behind, decoder.field, decoder.pendingTags ++ tags⟩
      ⟨behind, decoder'.field, decoder'.pendingTags ++ tags⟩ := by
  refine ⟨rfl, fun none behind' again => ?_, alike.object⟩
  obtain ⟨-, -, -, -, byte, more, rfl, stops⟩ := Cursor.tags_of_readTags tagged
  rw [Cursor.outcome_readTags_untagged stops] at again
  cases again
  rw [List.append_nil, List.append_nil]
  exact alike.own tags _ tagged

theorem Heeds.behindAhead (heeds : Heeds config read) : Heeds config (readAhead >>= fun _ => read) := by
  intro decoder decoder' alike
  simp only [readAhead, outcome_bind, outcome_cursor, alike.rest]
  cases tagged : outcome Cursor.readTags decoder.rest with
  | error e => rfl
  | ok p => exact heeds _ _ (alike.ahead tagged)

theorem Heeds.behindLook {look : ReadM α} (stays : ∀ input a rest, outcome look input = .ok (a, rest) → rest = input)
    {next : α → DecodeM β} (heeds : ∀ a, Heeds config (next a)) : Heeds config (cursor look >>= next) := by
  intro decoder decoder' alike
  simp only [outcome_bind, outcome_cursor, alike.rest]
  cases looked : outcome look decoder.rest with
  | error e => rfl
  | ok p =>
    obtain ⟨a, rest⟩ := p
    cases stays _ _ _ looked
    have same : (⟨decoder.rest, decoder'.field, decoder'.pendingTags⟩ : Decoder) = decoder' := by rw [← alike.rest]
    rw [ok_map, ok_map, ok_bind, ok_bind, same]
    exact heeds a _ _ alike

end

namespace Decoder

variable {config : Config}

theorem heeds_takeTags : Heeds config (takeTags config) := by
  intro decoder decoder' alike
  rw [outcome_takeTags, outcome_takeTags, alike.rest]
  cases tagged : outcome Cursor.readTags decoder.rest with
  | error e => rfl
  | ok p => rw [ok_bind, ok_bind, alike.own p.1 p.2 tagged]

theorem heeds_readHeader : Heeds config (readHeader config) := heeds_takeTags.bind _

theorem heeds_readPlainHeader : Heeds config (readPlainHeader config) := heeds_readHeader.bind _

theorem heeds_readText : Heeds config (readText config) := heeds_readPlainHeader.bind _

theorem heeds_readVariant (variants : List (VariantReader (DecodeM Value))) :
    Heeds config (readVariant config variants) := by
  refine Heeds.behindAhead (Heeds.behindLook (fun input major rest looked => ?_) fun major => ?_)
  · exact Cursor.eq_of_peekMajor looked
  · split
    · exact heeds_readText.bind _
    · rw [readVariantPair_eq]
      exact heeds_readHeader.bind _
    · exact fun _ _ _ => rfl

theorem heeds_readAny : Heeds config (readAny config) := by
  intro decoder decoder' alike
  change outcome (readGeneric config (decoder'.rest.length + 1)) decoder' =
    outcome (readGeneric config (decoder.rest.length + 1)) decoder
  rw [alike.rest, readGeneric_succ]
  exact heeds_readHeader.bind _ _ _ alike

def optionAt (config : Config) (field : Option Element) (read : DecodeM Value) : DecodeM Value := do
  let initial ← cursor Cursor.peek
  if initial = nullByte ∨ initial = undefinedByte ∨
      (initial = emptyMapByte ∧ (field.map (·.object)).getD false) then
    let _ ← takeTags config
    let _ ← cursor Cursor.readByte
    return .none
  else return .some (← read)

theorem readOption_eq (config : Config) (read : DecodeM Value) :
    readOption config read = readAhead >>= fun _ => (do optionAt config (← get).field read) := by
  rw [readOption, readNull_eq, bind_assoc]
  congr
  funext _
  rw [bind_assoc]
  congr
  funext decoder
  rw [nullAt, bind_assoc, optionAt]
  congr
  funext initial
  split
  · simp only [bind_assoc, pure_bind, if_true]
  · rw [pure_bind, if_neg Bool.false_ne_true]

theorem heeds_optionAt (field : Option Element) {read : DecodeM Value} (heeds : Heeds config read) :
    Heeds config (optionAt config field read) :=
  Heeds.behindLook (fun _ _ _ peeked => (Cursor.eq_of_peek peeked).1) fun _ =>
    (heeds_takeTags.bind _).ite (heeds.bind _)

theorem heeds_readOption {read : DecodeM Value} (heeds : Heeds config read) :
    Heeds config (readOption config read) := by
  rw [readOption_eq]
  refine Heeds.behindAhead fun decoder decoder' alike => ?_
  have same : optionAt config decoder'.field read = optionAt config decoder.field read := by
    rw [optionAt, optionAt, alike.object]
  change outcome (optionAt config decoder'.field read) decoder' = outcome (optionAt config decoder.field read) decoder
  rw [same]
  exact heeds_optionAt _ heeds _ _ alike

end Decoder

theorem Ty.heeds (config : Config) (type : Ty) : Heeds config (type.read config) :=
  Ty.read_induction (P := Heeds config) (fun heeds next => heeds.bind next) heeds_takeTags heeds_readOption
    heeds_readVariant heeds_readAny (heeds_alone _) type

theorem Decoder.ran_mapM_alone {read : Ty → DecodeM Value} (settles : ∀ type, Settles (read type)) (types : List Ty)
    {decoder : Decoder} (settled : decoder.Settled) :
    types.mapM read decoder = types.mapM (fun type => alone (read type)) decoder := by
  induction types generalizing decoder with
  | nil => rfl
  | cons type types ih =>
    rw [List.mapM_cons, List.mapM_cons]
    refine (ran_bind_congr fun value after found => ?_).trans (ran_bind (ran_alone (read type) settled) _)
    exact ran_bind (ih (settles type _ _ _ found)) _

theorem Ty.mapM_read_cons (config : Config) (type : Ty) (types : List Ty) :
    (type :: types).mapM (Ty.read config) = do
      let value ← type.read config
      let values ← types.mapM fun type => alone (type.read config)
      return value :: values := by
  funext decoder
  rw [List.mapM_cons]
  refine ran_bind_congr fun value after found => ?_
  exact ran_bind (ran_mapM_alone (Ty.settles config) types (Ty.settles config type _ _ _ found)) _

-- A reader that looks at nothing that is armed: it announces an element or none, and tags read ahead stay.
def Overlooks (read : DecodeM α) : Prop :=
  ∀ rest field pendingTags, outcome read ⟨rest, field, pendingTags⟩ =
    (fun p => (p.1, { p.2 with pendingTags })) <$> outcome read ⟨rest, none, []⟩

section
variable {α β : Type}

theorem overlooks_throw (e : Error) : Overlooks (throw e : DecodeM α) := fun _ _ _ => rfl

theorem overlooks_announce (field : Option Element) (a : α) :
    Overlooks (do modify fun decoder => { decoder with field }; return a) := fun _ _ _ => rfl

theorem Overlooks.ite {c : Prop} [Decidable c] {read other : DecodeM α} (yes : Overlooks read) (no : Overlooks other) :
    Overlooks (if c then read else other) := by
  split
  · exact yes
  · exact no

theorem Overlooks.behindCursor (read : ReadM α) {next : α → DecodeM β} (overlooks : ∀ a, Overlooks (next a)) :
    Overlooks (cursor read >>= next) := by
  intro rest field pendingTags
  simp only [outcome_bind, outcome_cursor]
  cases outcome read rest with
  | error e => rfl
  | ok p => exact overlooks p.1 p.2 field pendingTags

end

namespace Decoder

variable {config : Config}

theorem overlooks_nextByKey (rounds : Nat) (s : OpenStructure) : Overlooks (nextByKey config rounds s) := by
  -- One round for each entry that is passed over.
  induction rounds generalizing s with
  | zero => exact overlooks_throw _
  | succ rounds ih =>
    rw [nextByKey_succ]
    refine .behindCursor _ fun ended => .ite (overlooks_announce none (none, s)) ?_
    refine .behindCursor _ fun tags => .behindCursor _ fun key => ?_
    unfold behindKey
    split
    · exact .ite (overlooks_announce _ _) (overlooks_throw _)
    · exact .ite (.behindCursor _ fun _ => ih s.advanced) (overlooks_throw _)

theorem overlooks_nextByPosition (s : OpenStructure) : Overlooks (nextByPosition s) :=
  .behindCursor _ fun _ => .ite (overlooks_announce none (none, s)) (overlooks_announce _ _)

theorem overlooks_nextElement (s : OpenStructure) : Overlooks (nextElement config s) := by
  intro rest field pendingTags
  unfold nextElement
  split
  · exact overlooks_nextByKey (rest.length + 1) s rest field pendingTags
  · exact overlooks_nextByPosition s rest field pendingTags

section
variable {s : OpenStructure} {decoder : Decoder}

theorem settled_of_announced {after : Decoder} {index : Nat} {s' : OpenStructure}
    (nameless : ∀ index, s.shape.fieldAt index = none) (clear : decoder.pendingTags = [])
    (announced : outcome (nextElement config s) decoder = .ok ((some index, s'), after)) : after.Settled :=
  ⟨(field_of_nextElement announced).trans (nameless index), keepsClear_nextElement s _ _ _ clear announced⟩

theorem elementRounds_alone {item : DecodeM α} (settles : Settles item) (rounds : Nat)
    (nameless : ∀ index, s.shape.fieldAt index = none) (clear : decoder.pendingTags = []) :
    elementRounds config item rounds s decoder = elementRounds config (alone item) rounds s decoder := by
  induction rounds generalizing s decoder with
  | zero => rfl
  | succ rounds ih =>
    rw [elementRounds, elementRounds]
    refine ran_bind_congr fun p after found => ?_
    have shape := shape_of_nextElement found
    rcases p with ⟨_ | index, s'⟩
    · rfl
    · have settled := settled_of_announced nameless clear found
      refine (ran_bind_congr fun a behind found => ?_).trans (ran_bind (ran_alone item settled) _)
      exact ran_bind (ih (by rwa [shape]) (settles _ _ _ found).2) _

theorem entryRounds_alone {key : DecodeM α} {value : DecodeM β} (settlesKey : Settles key)
    (settlesValue : Settles value) (rounds : Nat) (nameless : ∀ index, s.shape.fieldAt index = none)
    (clear : decoder.pendingTags = []) :
    entryRounds config key value rounds s decoder = entryRounds config (alone key) (alone value) rounds s decoder := by
  induction rounds generalizing s decoder with
  | zero => rfl
  | succ rounds ih =>
    rw [entryRounds, entryRounds]
    refine ran_bind_congr fun p after found => ?_
    have shape := shape_of_nextElement found
    rcases p with ⟨_ | index, s₁⟩
    · rfl
    have settled := settled_of_announced nameless clear found
    refine (ran_bind_congr fun k behind found => ?_).trans (ran_bind (ran_alone key settled) _)
    have clear := (settlesKey _ _ _ found).2
    refine ran_bind_congr fun p after found => ?_
    have shape' := shape_of_nextElement found
    rcases p with ⟨_ | index, s₂⟩
    · rfl
    have settled := settled_of_announced (by rwa [shape]) clear found
    refine (ran_bind_congr fun v behind found => ?_).trans (ran_bind (ran_alone value settled) _)
    exact ran_bind (ih (by rwa [shape', shape]) (settlesValue _ _ _ found).2) _

theorem ran_enclosed {shape : Shape} {inside inside' : OpenStructure → DecodeM (α × OpenStructure)}
    (same : ∀ s, s.shape = shape → inside s decoder = inside' s decoder) (opening : Header × List UInt64) :
    enclosed config shape inside opening decoder = enclosed config shape inside' opening decoder := by
  refine ran_bind_congr fun s after found => ?_
  obtain ⟨_, opens, kept⟩ := map_eq_ok.mp (outcome_ofExcept .. ▸ found)
  cases kept
  exact ran_bind (same s (by rw [(eq_of_opened opens).2])) _

theorem elements_alone {item : DecodeM α} (settles : Settles item) (opening : Header × List UInt64)
    (clear : decoder.pendingTags = []) :
    enclosed config .list (readElements config item) opening decoder =
      enclosed config .list (readElements config (alone item)) opening decoder := by
  refine ran_enclosed (fun s list => ?_) opening
  exact elementRounds_alone settles _ (fun index => by rw [list]; rfl) clear

theorem entries_alone {key : DecodeM α} {value : DecodeM β} (settlesKey : Settles key) (settlesValue : Settles value)
    (opening : Header × List UInt64) (clear : decoder.pendingTags = []) :
    enclosed config .map (readEntries config key value) opening decoder =
      enclosed config .map (readEntries config (alone key) (alone value)) opening decoder := by
  refine ran_enclosed (fun s map => ?_) opening
  exact entryRounds_alone settlesKey settlesValue _ (fun index => by rw [map]; rfl) clear

end

def untyped (config : Config) (inside : DecodeM Value) : DecodeM Value :=
  readHeader config >>= fun opening =>
    match opening.1.major with
    | .unsigned | .negative => integerVisit <$> ofExcept opening.1.integer
    | .bytes => bytesVisit <$> cursor (Cursor.readPayload opening.1)
    | .text => do return textVisit (← ofExcept (← cursor (Cursor.readPayload opening.1)).text)
    | .array =>
      (.visited (.seq opening.1.length) ∘ .seq) <$> enclosed config .list (readElements config inside) opening
    | .map =>
      (.visited (.map opening.1.length) ∘ .map) <$> enclosed config .map (readEntries config inside inside) opening
    | .simple => ofExcept (readSimple opening.1)
    | .tag => throw (.malformedHeader opening.1.initial)

def untypedApart (config : Config) : Nat → DecodeM Value
  | 0 => throw .truncatedInput
  | rounds + 1 => untyped config (alone (untypedApart config rounds))

theorem readGeneric_apart (rounds : Nat) : readGeneric config rounds = untypedApart config rounds := by
  induction rounds with
  | zero => rfl
  | succ rounds ih =>
    rw [untypedApart, ← ih, readGeneric_succ]
    funext decoder
    refine ran_bind_congr fun opening after found => ?_
    have clear := (settles_readHeader config _ _ _ found).2
    have settles := @settles_readGeneric config rounds
    cases opening.1.major with
    | array => exact ran_map (elements_alone settles opening clear) _
    | map => exact ran_map (entries_alone settles settles opening clear) _
    | unsigned | negative | bytes | text | simple | tag => rfl

def octets (config : Config) (inside : DecodeM UInt8) : DecodeM Payload :=
  readHeader config >>= fun opening =>
    match opening.1.major with
    | .bytes => cursor (Cursor.readPayload opening.1)
    | .array => (Payload.mk · false) <$> enclosed config .list (readElements config inside) opening
    | _ => throw (opening.1.unexpected "byte string")

theorem readBytes_apart : readBytes config = octets config (alone (readByte config)) := by
  rw [readBytes_eq]
  funext decoder
  refine ran_bind_congr fun opening after found => ?_
  have clear := (settles_readHeader config _ _ _ found).2
  cases opening.1.major with
  | array => exact ran_map (elements_alone settles_readByte opening clear) _
  | unsigned | negative | bytes | text | map | simple | tag => rfl

end Decoder

-- Where an item starts that lies inside of what is read as a target: an element of a structure with the field that it
-- is announced as, or the name or the content of a variant.
inductive Begins (config : Config) (target : Target) (decoder : Decoder) :
    Option Element → Target → Decoder → Prop where
  | element {between : Target} {shape : Shape} {decoder₁ decoder₂ decoder₃ start : Decoder} {s s₁ s₂ : OpenStructure}
      {others : List Nat} {index : Nat} {type : Ty}
      (visits : Visits config target decoder between decoder₁)
      (framed : between.frame config = some shape)
      (begun : outcome (beginStructure config shape) decoder₁ = .ok (s, decoder₂))
      (walk : Walk config (between.part config) [] s decoder₂ others s₁ decoder₃)
      (announced : outcome (nextElement config s₁) decoder₃ = .ok ((some index, s₂), start))
      (known : between.part config others index = some type) :
      Begins config target decoder (shape.fieldAt index) (.value type) start
  | name {parent : String} {variants : List (Variant Ty)} {decoder₁ decoder₂ start : Decoder} {s s₁ : OpenStructure}
      {index : Nat}
      (visits : Visits config target decoder (.value (.enumeration parent variants)) decoder₁)
      (begun : outcome (beginPair config) decoder₁ = .ok ((.array, s), decoder₂))
      (announced : outcome (nextElement config s) decoder₂ = .ok ((some index, s₁), start)) :
      Begins config target decoder none (.value .text) start
  | content {parent : String} {variants : List (Variant Ty)} {part : Target} {decoder₁ start : Decoder}
      (visits : Visits config target decoder (.value (.enumeration parent variants)) decoder₁)
      (enters : Enters config (.value (.enumeration parent variants)) decoder₁ part start) :
      Begins config target decoder none part start

section
variable {config : Config} {target place : Target} {decoder inner : Decoder}

theorem Begins.armed {field : Option Element} {part : Target} {start : Decoder}
    (begins : Begins config target decoder field part start) : start = ⟨start.rest, field, []⟩ := by
  have parts : start.field = field ∧ start.pendingTags = [] := by
    cases begins with
    | element visits framed begun walk announced known => exact armed_element begun walk announced
    | name visits begun announced =>
      obtain ⟨clear, pair⟩ := pair_of_begun begun
      refine ⟨?_, keepsClear_nextElement _ _ _ _ clear announced⟩
      rw [field_of_nextElement announced, pair]
      rfl
    | content visits enters => exact enters.armed_content
  obtain ⟨rfl, clear⟩ := parts
  rw [← clear]

theorem Visits.within (visits : Visits config target decoder place inner) :
    Sits config target decoder place inner ∨ ∃ field part start, Begins config target decoder field part start ∧
      Sits config part start place inner := by
  induction visits with
  | here => exact .inl .here
  | @further between place decoder₁ inner visits enters ih =>
    by_cases wraps : between.Wraps
    · rcases ih with sits | ⟨field, part, start, begins, sits⟩
      · exact .inl (.further sits wraps enters)
      · exact .inr ⟨field, part, start, begins, .further sits wraps enters⟩
    · cases enters with
      | tuple | tupleStruct | record | newtype | delayed | option => exact absurd trivial wraps
      | variant begun firstAnnounced named known secondAnnounced carries =>
        have enters := Enters.variant begun firstAnnounced named known secondAnnounced carries
        exact .inr ⟨_, _, _, .content visits enters, .here⟩
      | element framed begun walk announced known =>
        exact .inr ⟨_, _, _, .element visits framed begun walk announced known, .here⟩

def Decoder.TagsAhead (decoder inner : Decoder) : Prop :=
  ∃ tags : List Head, (∀ tag ∈ tags, tag.Fits) ∧ decoder.rest = tagBytes tags ++ inner.rest ∧
    inner = ⟨inner.rest, decoder.field, decoder.pendingTags ++ tags.map Head.number⟩

theorem Decoder.TagsAhead.refl (decoder : Decoder) : decoder.TagsAhead decoder :=
  ⟨[], by simp, rfl, by rw [List.map_nil, List.append_nil]⟩

theorem Decoder.TagsAhead.trans {between : Decoder} (first : decoder.TagsAhead between)
    (second : between.TagsAhead inner) : decoder.TagsAhead inner := by
  obtain ⟨tags, fit, split, same⟩ := first
  obtain ⟨tags', fit', split', same'⟩ := second
  refine ⟨tags ++ tags', fun tag member => ?_, ?_, ?_⟩
  · exact (List.mem_append.mp member).elim (fit tag) (fit' tag)
  · rw [split, split', tagBytes, tagBytes, tagBytes, List.flatMap_append, List.append_assoc]
  · rw [same', same, List.map_append, List.append_assoc]

theorem Enters.tagsAhead (enters : Enters config target decoder place inner) (wraps : target.Wraps) :
    decoder.TagsAhead inner := by
  cases enters with
  | tuple | tupleStruct | record | newtype | delayed => exact .refl _
  | option present =>
    obtain ⟨⟨numbers, tagged⟩, read, found⟩ := bind_eq_ok.mp (outcome_bind .. ▸ ahead_of_readNull present)
    obtain ⟨rest, readTags, rfl⟩ := rest_of_cursor read
    cases found
    obtain ⟨tags, fit, rfl, split, -⟩ := Cursor.tags_of_readTags readTags
    exact ⟨tags, fit, split, rfl⟩
  | variant => exact False.elim wraps
  | element framed =>
    rw [Target.frame_of_wraps wraps] at framed
    cases framed

theorem Sits.tagsAhead (sits : Sits config target decoder place inner) : decoder.TagsAhead inner := by
  induction sits with
  | here => exact .refl _
  | further _ wraps enters ih => exact ih.trans (enters.tagsAhead wraps)

end

structure Config.KeepsItemsApart (config : Config) : Prop where
  -- Behind a value nothing is armed, and so another one is read as by a decoder of its own.
  settles : ∀ (type : Ty) decoder value after, outcome (type.read config) decoder = .ok (value, after) →
    after = ⟨after.rest, none, []⟩
  goesOn : ∀ (type : Ty) (types : List Ty), (type :: types).mapM (Ty.read config) = do
    let value ← type.read config
    let values ← types.mapM fun type => alone (type.read config)
    return value :: values
  -- A value goes by the bytes that it takes, whatever is behind them.
  takes : ∀ (type : Ty) decoder value after, outcome (type.read config) decoder = .ok (value, after) →
    ∃ taken, decoder.rest = taken ++ after.rest ∧ ∀ more,
      outcome (type.read config) ⟨taken ++ more, decoder.field, decoder.pendingTags⟩ = .ok (value, ⟨more, none, []⟩)
  -- Of what is armed it goes by the tags of its item and by its null, and the keys of an entry go by nothing of it.
  heeds : ∀ (type : Ty) decoder decoder', decoder.Alike config decoder' →
    outcome (type.read config) decoder' = outcome (type.read config) decoder
  overlooks : ∀ s rest field pendingTags, outcome (nextElement config s) ⟨rest, field, pendingTags⟩ =
    (fun p => (p.1, { p.2 with pendingTags })) <$> outcome (nextElement config s) ⟨rest, none, []⟩
  -- An item inside of another one begins with its own field and without tags, and whatever is read belongs to an item.
  begins : ∀ target decoder field part start, Begins config target decoder field part start →
    start = ⟨start.rest, field, []⟩
  within : ∀ target decoder place inner, TypedCbor.Visits config target decoder place inner →
    Sits config target decoder place inner ∨ ∃ field part start, Begins config target decoder field part start ∧
      Sits config part start place inner
  sits : ∀ target decoder place inner, Sits config target decoder place inner → decoder.TagsAhead inner
  -- So it is where no type tells what is inside of an item, where a byte string is an array, and for embedded values.
  untyped : ∀ rounds, readGeneric config rounds = untypedApart config rounds
  octets : readBytes config = octets config (alone (readByte config))
  embedded : ∀ type : Ty, (Ty.embedded type).read config = readEmbedded config (alone (type.read config))

-- What a decoder is armed with serves the one item in front of it. Whatever is read inside of the item or behind it
-- is read as by a decoder of its own.
theorem Config.keepsItemsApart (config : Config) : config.KeepsItemsApart where
  settles := fun type decoder value after read => (Ty.settles config type decoder value after read).eq
  goesOn := Ty.mapM_read_cons config
  takes := by
    intro type decoder value after read
    obtain ⟨taken, split, law⟩ := type.delimits.takes (.refl config) decoder value after read
    refine ⟨taken, split, fun more => (law.whole more False.elim).trans ?_⟩
    rw [(Ty.settles config type decoder value after read).eq]
    rfl
  heeds := Ty.heeds config
  overlooks := overlooks_nextElement
  begins := fun _ _ _ _ _ begins => begins.armed
  within := fun _ _ _ _ visits => visits.within
  sits := fun _ _ _ _ sits => sits.tagsAhead
  untyped := readGeneric_apart
  octets := readBytes_apart
  embedded := fun _ => rfl

theorem Config.reads_level_apart :
    outcome ((Ty.seq (.seq .bool)).read Config.stations) ⟨[0x81, 0x81, 0xf5, 0xf4], some .level, [9]⟩ =
        .ok (.seq [.seq [.bool true]], ⟨[0xf4], none, []⟩) ∧
      outcome ((Ty.seq (.seq .bool)).read Config.stations) ⟨[0x81, 0x81, 0xf5, 0xf4], some .level, [9]⟩ =
        outcome ((Ty.seq (.seq .bool)).read Config.stations) ⟨[0x81, 0x81, 0xf5, 0xf4], none, []⟩ ∧
      ∃ start : Decoder, start = ⟨[0x81, 0xf5, 0xf4], none, []⟩ ∧
        Begins Config.stations (.value (.seq (.seq .bool))) ⟨[0x81, 0x81, 0xf5, 0xf4], some .level, [9]⟩ none
          (.value (.seq .bool)) start := by
  have apart := Config.keepsItemsApart Config.stations
  have alike : Decoder.Alike Config.stations ⟨[0x81, 0x81, 0xf5, 0xf4], none, []⟩
      ⟨[0x81, 0x81, 0xf5, 0xf4], some .level, [9]⟩ := by
    refine ⟨rfl, fun tags behind read => ?_, rfl⟩
    rw [show outcome Cursor.readTags [0x81, 0x81, 0xf5, 0xf4] = .ok ([], [0x81, 0x81, 0xf5, 0xf4]) from rfl] at read
    cases read
    rfl
  have begins : Begins Config.stations (.value (.seq (.seq .bool)))
      ⟨[0x81, 0x81, 0xf5, 0xf4], some .level, [9]⟩ none (.value (.seq .bool)) ⟨[0x81, 0xf5, 0xf4], none, []⟩ :=
    @Begins.element _ _ _ _ .list _ _ _ _ ⟨.list, some 1, 0⟩ _ _ _ 0 _ .here rfl rfl .done rfl rfl
  exact ⟨rfl, apart.heeds _ _ _ alike, _, apart.begins _ _ _ _ _ begins, begins⟩

end TypedCbor
