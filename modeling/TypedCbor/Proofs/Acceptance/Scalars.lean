import TypedCbor.Proofs.Entries.Found

namespace TypedCbor

namespace Item

-- Well-formed, and it says something to a reader that has no type for it.
structure Sound (item : Item) : Prop where
  wellFormed : item.WellFormed
  plain : item.Plain

theorem sound_of_parts {body : Body Item} (formed : (mk [] body).Formed) (here : body.Says)
    (parts : ∀ child ∈ body.children, child.Sound) : (mk [] body).Sound := by
  refine ⟨⟨formed, fun child member => (parts child member).wellFormed⟩, ⟨here, fun child member => ?_⟩⟩
  exact (parts child (mem_children_of_elements member)).plain

theorem sound_of_leaf {body : Body Item} (childless : body.children = []) (here : body.Says)
    (head : ∀ head ∈ body.head?, head.Fits) (chunks : ∀ chunk ∈ body.chunks, chunk.head.Fits)
    (simple : ∀ n, body = .simple ⟨.one, n⟩ → 32 ≤ n) : (mk [] body).Sound := by
  refine sound_of_parts ⟨by simp, head, chunks, simple⟩ here fun child member => ?_
  rw [childless] at member
  cases member

theorem Sound.tagged {tags tags' : List Head} {body : Body Item} (sound : (Item.mk tags body).Sound)
    (fit : ∀ tag ∈ tags', tag.Fits) : (Item.mk tags' body).Sound := by
  obtain ⟨⟨formed, children⟩, ⟨here, elements⟩⟩ := sound
  exact ⟨⟨{ formed with tags := fit }, children⟩, ⟨here, elements⟩⟩

end Item

def Idle (read : DecodeM α) : Prop :=
  ∀ decoder a after, outcome read decoder = .ok (a, after) → after.rest = decoder.rest

section
variable {α β : Type} {P : Item → Prop} {decoder : Decoder}

theorem idle_pure (a : α) : Idle (pure a : DecodeM α) := by
  intro decoder b after found
  cases found
  rfl

theorem idle_throw (e : Error) : Idle (throw e : DecodeM α) := by
  intro decoder b after found
  cases found

theorem idle_ofExcept (result : Except Error α) : Idle (Decoder.ofExcept result) := by
  intro decoder a after found
  obtain ⟨b, -, same⟩ := map_eq_ok.mp (Decoder.outcome_ofExcept .. ▸ found)
  cases same
  rfl

theorem Idle.ite {c : Prop} [Decidable c] {yes no : DecodeM α} (first : Idle yes) (second : Idle no) :
    Idle (if c then yes else no) := by
  split
  · exact first
  · exact second

theorem Idle.bind {read : DecodeM α} {next : α → DecodeM β} (first : Idle read) (second : ∀ a, Idle (next a)) :
    Idle (read >>= next) := by
  intro decoder b after found
  obtain ⟨⟨a, between⟩, ran, goes⟩ := bind_eq_ok.mp (outcome_bind .. ▸ found)
  exact (second a between b after goes).trans (first decoder a between ran)

theorem SpellsAt.andThen {read : DecodeM α} (spells : SpellsAt P read decoder) {next : α → DecodeM β}
    (idle : ∀ a, Idle (next a)) : SpellsAt P (read >>= next) decoder := by
  intro b after found
  obtain ⟨⟨a, between⟩, ran, goes⟩ := bind_eq_ok.mp (outcome_bind .. ▸ found)
  obtain ⟨item, holds, spelled⟩ := spells a between ran
  exact ⟨item, holds, by rw [spelled, idle a between b after goes]⟩

theorem SpellsAt.map {read : DecodeM α} (spells : SpellsAt P read decoder) (f : α → β) :
    SpellsAt P (f <$> read) decoder := by
  intro b after found
  obtain ⟨⟨a, between⟩, ran, same⟩ := map_eq_ok.mp (outcome_map .. ▸ found)
  cases same
  exact spells a between ran

end

-- What the reader takes from here is the rest of a sound item that opens so.
def SoundBehind (read : DecodeM α) (major : Major) (head? : Option Head) (inside : Decoder) : Prop :=
  ∀ a after, outcome read inside = .ok (a, after) →
    ∃ body : Body Item, body.head? = head? ∧ body.major = major ∧ (Item.mk [] body).Sound ∧
      inside.rest = body.content ++ after.rest

section
variable {α β : Type} {inside : Decoder} {major : Major} {head? : Option Head}

theorem SoundBehind.map {read : DecodeM α} (behind : SoundBehind read major head? inside) (f : α → β) :
    SoundBehind (f <$> read) major head? inside := by
  intro b after found
  obtain ⟨⟨a, between⟩, ran, same⟩ := map_eq_ok.mp (outcome_map .. ▸ found)
  cases same
  exact behind a between ran

theorem SoundBehind.andThen {read : DecodeM α} (behind : SoundBehind read major head? inside)
    {next : α → DecodeM β} (idle : ∀ a, Idle (next a)) : SoundBehind (read >>= next) major head? inside := by
  intro b after found
  obtain ⟨⟨a, between⟩, ran, goes⟩ := bind_eq_ok.mp (outcome_bind .. ▸ found)
  obtain ⟨body, head, kind, sound, content⟩ := behind a between ran
  exact ⟨body, head, kind, sound, by rw [content, idle a between b after goes]⟩

theorem soundBehind_throw (e : Error) : SoundBehind (throw e : DecodeM α) major head? inside :=
  fun _ _ found => nomatch found

end

namespace Decoder

variable {config : Config}

section
variable {α β : Type} {decoder inside : Decoder} {major : Major} {head? : Option Head}

theorem spellsAt_readHeader {next : Header × List UInt64 → DecodeM α}
    (behind : ∀ major head? own inside, (∀ head ∈ head?, head.Fits) →
      outcome (readHeader config) decoder = .ok ((openingHeader major head?, own), inside) →
        SoundBehind (next (openingHeader major head?, own)) major head? inside) :
    SpellsAt Item.Sound (readHeader config >>= next) decoder := by
  intro a after found
  obtain ⟨⟨⟨header, own⟩, inside⟩, opened, goes⟩ := bind_eq_ok.mp (outcome_bind .. ▸ found)
  obtain ⟨tags, head?, tagsFit, fits, -, -, same, spelled⟩ := opening_of_readHeader opened
  rw [same] at opened goes
  obtain ⟨body, head, kind, sound, content⟩ := behind _ head? own inside fits opened a after goes
  refine ⟨⟨tags, body⟩, sound.tagged tagsFit, ?_⟩
  rw [spelled, Item.bytes_eq, bodyBytes_eq, Item.tags_mk, Item.body_mk, head, kind, content]
  simp only [List.append_assoc]

theorem spellsAt_readPlainHeader {next : Header → DecodeM α}
    (behind : ∀ major head? inside, (∀ head ∈ head?, head.Fits) →
      SoundBehind (next (openingHeader major head?)) major head? inside) :
    SpellsAt Item.Sound (readPlainHeader config >>= next) decoder := by
  have plain : SpellsAt Item.Sound (readHeader config >>= fun opening => next opening.1) decoder :=
    spellsAt_readHeader fun major head? _ inside fits _ => behind major head? inside fits
  simpa only [readPlainHeader, bind_assoc, pure_bind] using plain

theorem soundBehind_ofHeader {result : Except Error α}
    (sound : ∀ a, result = .ok a → ∃ body : Body Item, body.head? = head? ∧ body.major = major ∧
      (Item.mk [] body).Sound ∧ body.content = []) :
    SoundBehind (ofExcept result) major head? inside := by
  intro a after found
  obtain ⟨a', told, same⟩ := map_eq_ok.mp (outcome_ofExcept .. ▸ found)
  cases same
  obtain ⟨body, head, kind, sound, bare⟩ := sound a told
  exact ⟨body, head, kind, sound, by rw [bare, List.nil_append]⟩

theorem leaf_of_integer {n : Int} (fits : ∀ head ∈ head?, head.Fits)
    (told : (openingHeader major head?).integer = .ok n) :
    ∃ body : Body Item, body.head? = head? ∧ body.major = major ∧ (Item.mk [] body).Sound ∧
      body.content = [] := by
  have known := openingHeader_major major fits
  cases head? with
  | none =>
    rw [Header.integer, known] at told
    cases major <;> cases told
  | some head =>
    rcases Header.major_of_integer told with same | same
    all_goals obtain rfl := known.symm.trans same
    · exact ⟨.unsigned head, rfl, rfl, Item.sound_of_leaf rfl trivial fits (by simp [Body.chunks]) (by simp), rfl⟩
    · exact ⟨.negative head, rfl, rfl, Item.sound_of_leaf rfl trivial fits (by simp [Body.chunks]) (by simp), rfl⟩

theorem leaf_of_readSimple {value : Value} (fits : ∀ head ∈ head?, head.Fits)
    (told : readSimple (openingHeader .simple head?) = .ok value) :
    ∃ body : Body Item, body.head? = head? ∧ body.major = .simple ∧ (Item.mk [] body).Sound ∧
      body.content = [] := by
  cases head? with
  | none => cases told
  | some head =>
    have tells : head.simpleValue.isSome := by
      change readSimple (head.header .simple) = _ at told
      rw [(fits head rfl).readSimple_eq] at told
      cases found : head.simpleValue with
      | none =>
        rw [found] at told
        cases told
      | some value => rfl
    refine ⟨.simple head, rfl, rfl, Item.sound_of_leaf rfl tells fits (by simp [Body.chunks]) ?_, rfl⟩
    intro n same
    cases same
    exact absurd rfl (width_of_readSimple told)

theorem readSimple_of_boolean {header : Header} {value : Bool} (told : header.boolean = .ok value) :
    ∃ value, readSimple header = .ok value := by
  have info : header.info = falseInfo ∨ header.info = trueInfo := by
    unfold Header.boolean at told
    split_ifs at told with no yes
    · exact .inl no.2
    · exact .inr yes.2
  by_cases null : header.initial = nullByte ∨ header.initial = undefinedByte
  · exact ⟨_, if_pos null⟩
  · rw [readSimple, if_neg null, if_pos info, told]
    exact ⟨_, rfl⟩

theorem readSimple_of_float {header : Header} {bits : UInt64} (told : header.float = .ok bits) :
    ∃ value, readSimple header = .ok value := by
  have info : header.info = halfInfo ∨ header.info = singleInfo ∨ header.info = doubleInfo := by
    unfold Header.float at told
    split at told
    · split_ifs at told with half single double
      · exact .inl half
      · exact .inr (.inl single)
      · exact .inr (.inr double)
    · cases told
  have other : ¬(header.info = falseInfo ∨ header.info = trueInfo) := by
    simp only [halfInfo, singleInfo, doubleInfo, falseInfo, trueInfo] at info ⊢
    omega
  by_cases null : header.initial = nullByte ∨ header.initial = undefinedByte
  · exact ⟨_, if_pos null⟩
  · rw [readSimple, if_neg null, if_neg other, if_pos info, told]
    exact ⟨_, rfl⟩

theorem readSimple_of_null {header : Header} (null : header.initial = nullByte ∨ header.initial = undefinedByte) :
    readSimple header = .ok (.visited .unit .unit) := by
  rw [readSimple, if_pos null]

theorem major_of_null {header : Header} (null : header.initial = nullByte ∨ header.initial = undefinedByte) :
    header.major = .simple := by
  rw [Header.major]
  rcases null with same | same <;> rw [same] <;> rfl

end

theorem spellsAt_readInteger (decoder : Decoder) : SpellsAt Item.Sound (readInteger config) decoder :=
  spellsAt_readPlainHeader fun _ _ _ fits => soundBehind_ofHeader fun _ told => leaf_of_integer fits told

theorem spellsAt_readBool (decoder : Decoder) : SpellsAt Item.Sound (readBool config) decoder := by
  refine spellsAt_readPlainHeader fun major head? inside fits => soundBehind_ofHeader fun value told => ?_
  obtain rfl := (openingHeader_major major fits).symm.trans (Header.major_of_boolean told)
  obtain ⟨_, simple⟩ := readSimple_of_boolean told
  exact leaf_of_readSimple fits simple

theorem spellsAt_readFloat (decoder : Decoder) : SpellsAt Item.Sound (readFloat config) decoder := by
  refine spellsAt_readPlainHeader fun major head? inside fits => soundBehind_ofHeader fun bits told => ?_
  obtain rfl := (openingHeader_major major fits).symm.trans (Header.major_of_float told)
  obtain ⟨_, simple⟩ := readSimple_of_float told
  exact leaf_of_readSimple fits simple

theorem spellsAt_readUnit (decoder : Decoder) : SpellsAt Item.Sound (readUnit config) decoder := by
  refine spellsAt_readPlainHeader fun major head? inside fits => ?_
  by_cases null : (openingHeader major head?).initial = nullByte ∨ (openingHeader major head?).initial = undefinedByte
  · obtain rfl := (openingHeader_major major fits).symm.trans (major_of_null null)
    rw [if_pos null]
    refine @soundBehind_ofHeader _ inside .simple head? (.ok Value.unit) fun _ _ => ?_
    exact leaf_of_readSimple fits (readSimple_of_null null)
  · rw [if_neg null]
    exact soundBehind_throw _

section
variable {inside : Decoder} {major : Major} {head? : Option Head}

theorem form_of_readPayload (fits : ∀ head ∈ head?, head.Fits) (string : major = .bytes ∨ major = .text)
    {payload : Payload} {after : Decoder}
    (found : outcome (cursor (Cursor.readPayload (openingHeader major head?))) inside = .ok (payload, after)) :
    ∃ form : StringForm, form.head? = head? ∧ (∀ chunk ∈ form.chunks, chunk.head.Fits) ∧
      inside.rest = form.body major ++ after.rest ∧ payload = ⟨form.content, form.isWhole⟩ := by
  obtain ⟨rest, read, rfl⟩ := rest_of_cursor found
  obtain ⟨form, rfl, chunks, spelled⟩ := Cursor.form_of_readPayload fits (openingHeader_major major fits) read
  have opens : form.head? = none → major.hasIndefinite = true := by
    rcases string with rfl | rfl <;> exact fun _ => rfl
  rw [spelled, Cursor.outcome_readPayload chunks opens] at read
  cases read
  exact ⟨form, rfl, chunks, spelled, rfl⟩

theorem soundBehind_bytes (fits : ∀ head ∈ head?, head.Fits) :
    SoundBehind (cursor (Cursor.readPayload (openingHeader .bytes head?))) .bytes head? inside := by
  intro payload after found
  obtain ⟨form, rfl, chunks, spelled, -⟩ := form_of_readPayload fits (.inl rfl) found
  exact ⟨.bytes form, rfl, rfl, Item.sound_of_leaf rfl trivial fits chunks (by simp), spelled⟩

theorem soundBehind_text (fits : ∀ head ∈ head?, head.Fits) :
    SoundBehind (do ofExcept (← cursor (Cursor.readPayload (openingHeader .text head?))).text) .text head?
      inside := by
  intro text after found
  obtain ⟨⟨payload, between⟩, read, told⟩ := bind_eq_ok.mp (outcome_bind .. ▸ found)
  obtain ⟨form, rfl, chunks, spelled, rfl⟩ := form_of_readPayload fits (.inr rfl) read
  have kept := idle_ofExcept _ between text after told
  have tells : form.content.toText?.isSome := by
    cases valid : form.content.toText? with
    | none => simp [Payload.text, valid] at told
    | some text => rfl
  refine ⟨.text form, rfl, rfl, Item.sound_of_leaf rfl tells fits chunks (by simp), ?_⟩
  rw [spelled, kept]
  rfl

end

theorem spellsAt_readText (decoder : Decoder) : SpellsAt Item.Sound (readText config) decoder := by
  refine spellsAt_readPlainHeader fun major head? inside fits => ?_
  rw [openingHeader_major major fits]
  by_cases text : major = .text
  · subst text
    exact soundBehind_text fits
  · rw [if_neg text]
    exact soundBehind_throw _

theorem spellsAt_readByte (decoder : Decoder) : SpellsAt Item.Sound (readByte config) decoder :=
  (spellsAt_readInteger decoder).andThen fun _ => (idle_pure _).ite (idle_throw _)

theorem spellsAt_readInt (kind : IntKind) (decoder : Decoder) : SpellsAt Item.Sound (readInt config kind) decoder :=
  (spellsAt_readInteger decoder).andThen fun _ => (idle_pure _).ite (idle_throw _)

theorem spellsAt_readChar (decoder : Decoder) : SpellsAt Item.Sound (readChar config) decoder :=
  (spellsAt_readInteger decoder).andThen fun _ => (idle_throw _).ite ((idle_pure _).ite (idle_throw _))

theorem spellsAt_readTextSlice (decoder : Decoder) : SpellsAt Item.Sound (readTextSlice config) decoder :=
  (spellsAt_readText decoder).andThen fun _ => (idle_pure _).ite (idle_throw _)

theorem soundBehind_byteArray {head? : Option Head} (fits : ∀ head ∈ head?, head.Fits) (own : List UInt64)
    (inside : Decoder) :
    SoundBehind (enclosed config .list (readElements config (readByte config)) (openingHeader .array head?, own))
      .array head? inside := by
  intro bytes after found
  obtain ⟨s, between, taken, ended⟩ := parts_of_enclosed found
  simp only [readElements, outcome_bind, outcome_get, ok_bind] at taken
  obtain ⟨items, sound, spelled, count⟩ := items_of_elementRounds spellsAt_readByte rfl taken
  obtain ⟨framing, rfl, closed⟩ := framing_of_enclosed fits count ended
  refine ⟨.array framing items, rfl, rfl, Item.sound_of_parts ?_ trivial sound, ?_⟩
  · exact ⟨by simp, fits, by simp [Body.chunks], by simp⟩
  · rw [spelled, closed, Body.content, List.append_assoc]

theorem spellsAt_readBytes (decoder : Decoder) : SpellsAt Item.Sound (readBytes config) decoder := by
  rw [readBytes_eq]
  refine spellsAt_readHeader fun major head? own inside fits _ => ?_
  dsimp only
  rw [openingHeader_major major fits]
  cases major with
  | bytes => exact soundBehind_bytes fits
  | array => exact (soundBehind_byteArray fits own inside).map _
  | _ => exact soundBehind_throw _

theorem spellsAt_readBytesSlice (decoder : Decoder) : SpellsAt Item.Sound (readBytesSlice config) decoder :=
  (spellsAt_readBytes decoder).andThen fun _ => (idle_pure _).ite (idle_throw _)

theorem spellsAt_readEmbedded (read : DecodeM Value) (decoder : Decoder) :
    SpellsAt Item.Sound (readEmbedded config read) decoder := by
  refine spellsAt_readPlainHeader fun major head? inside fits => ?_
  rw [openingHeader_major major fits]
  by_cases bytes : major = .bytes
  · subst bytes
    rw [if_pos rfl]
    cases head? with
    | none => exact soundBehind_throw _
    | some head =>
      suffices taken : SoundBehind (cursor (Cursor.take head.number.toNat)) .bytes (some head) inside from
        taken.andThen fun _ => (idle_ofExcept _).bind fun _ => idle_pure _
      intro taken after found
      obtain ⟨rest, took, rfl⟩ := rest_of_cursor found
      obtain ⟨length, spelled⟩ := Cursor.eq_of_take took
      have here : (Chunk.mk head.width taken).head = head := by
        rw [Chunk.head, length, (fits head rfl).toNat_number]
      refine ⟨.bytes (.whole ⟨head.width, taken⟩), congrArg some here, rfl, ?_, spelled⟩
      refine @Item.sound_of_leaf (.bytes _) rfl trivial ?_ ?_ (by simp)
      · simpa only [Body.head?, StringForm.head?, here] using fits
      · simpa only [Body.chunks, StringForm.chunks, List.mem_singleton, forall_eq, here] using fits head rfl
  · rw [if_neg bytes]
    exact soundBehind_throw _

theorem spellsAt_readAny (decoder : Decoder) : SpellsAt Item.Sound (readAny config) decoder := by
  intro value after found
  simp only [readAny, outcome_bind, outcome_get, ok_bind] at found
  obtain ⟨item, wellFormed, spelled⟩ := spells_readGeneric _ _ _ _ found
  have enough : item.bytes.length ≤ decoder.rest.length + 1 := by
    rw [spelled, List.length_append]
    omega
  have follows : FollowsAt (readGeneric config _) (ItemReader.any config) item :=
    followsAt_readGeneric wellFormed enough
  have read := follows decoder.field decoder.pendingTags after.rest
  rw [← spelled, found] at read
  obtain ⟨_, told, -⟩ := map_eq_ok.mp read.symm
  obtain ⟨_, -, visited⟩ := bind_eq_ok.mp told
  rcases item with ⟨tags, body⟩
  exact ⟨⟨tags, body⟩, ⟨wellFormed, ((Body.tells_of_wellFormed wellFormed _).mp visited).1⟩, spelled⟩

theorem sound_of_key {item : Item} (formed : item.Formed) {key : Key} (told : item.body.key = .ok key) :
    item.Sound := by
  rcases item with ⟨tags, body⟩
  refine @Item.Sound.tagged [] _ _ ?_ formed.tags
  cases body with
  | unsigned head | negative head => exact Item.sound_of_leaf rfl trivial formed.head formed.chunks formed.simple
  | text form =>
    refine Item.sound_of_leaf rfl ?_ formed.head formed.chunks formed.simple
    cases valid : form.content.toText? with
    | none => simp [Body.key, Payload.text, valid] at told
    | some text => simp [Body.Says, valid]
  | _ => cases told

end Decoder

def Ty.IsClosed : Ty → Prop
  | bool | int _ | single | double | char | text | textSlice | bytes | bytesSlice | unit | unitStruct _ | embedded _ | any
  | identifier => True
  | _ => False

theorem Ty.IsClosed.spellsAt {type : Ty} (closed : type.IsClosed) {config : Config} (decoder : Decoder) :
    SpellsAt Item.Sound (type.read config) decoder := by
  cases type with
  | bool => exact (Decoder.spellsAt_readBool decoder).map _
  | int kind => exact Decoder.spellsAt_readInt kind decoder
  | single | double => exact (Decoder.spellsAt_readFloat decoder).map _
  | char => exact Decoder.spellsAt_readChar decoder
  | text | identifier => exact (Decoder.spellsAt_readText decoder).map _
  | textSlice => exact Decoder.spellsAt_readTextSlice decoder
  | bytes => exact (Decoder.spellsAt_readBytes decoder).map _
  | bytesSlice => exact Decoder.spellsAt_readBytesSlice decoder
  | unit | unitStruct => exact Decoder.spellsAt_readUnit decoder
  | embedded type => exact Decoder.spellsAt_readEmbedded _ decoder
  | any => exact Decoder.spellsAt_readAny decoder
  | _ => exact False.elim closed

end TypedCbor
