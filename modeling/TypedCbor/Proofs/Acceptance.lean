import TypedCbor.Proofs.Acceptance.Structures
import TypedCbor.Proofs.Acceptance.Units

namespace TypedCbor

open Decoder

def Ty.records : Ty → List (String × List (Field Ty))
  | record name fields => [(name, fields)]
  | enumeration _ variants => variants.flatMap fun variant =>
    match variant.content with
    | .record fields => [(variant.name, fields)]
    | _ => []
  | _ => []

-- Whatever is described of a record is one of its fields.
def Config.ListsFields (config : Config) (name : String) (fields : List (Field Ty)) : Prop :=
  ∀ element ∈ (config.recordShape name fields).elements, element.name ∈ fields.map Field.name

def Config.ListsFieldsOf (config : Config) (type : Ty) : Prop :=
  ∀ record ∈ type.records, config.ListsFields record.1 record.2

instance (config : Config) (name : String) (fields : List (Field Ty)) : Decidable (config.ListsFields name fields) :=
  inferInstanceAs (Decidable (∀ _ ∈ _, _))

instance (config : Config) (type : Ty) : Decidable (config.ListsFieldsOf type) :=
  inferInstanceAs (Decidable (∀ _ ∈ _, _))

def Target.Listed (config : Config) : Target → Prop
  | record name _ fields => config.ListsFields name fields
  | _ => True

def Ty.SpellsSound (config : Config) (type : Ty) : Prop :=
  ∀ decoder, WithoutPairedUnits config (.value type) decoder → SpellsAt Item.Sound (type.read config) decoder

section
variable {config : Config} (strict : config.ignoreUnknownKeys = false)
  (keyed : ∀ descriptor ∈ config.descriptors, descriptor.kind = .keyed)
include strict keyed

theorem Target.spellsAt_listed (target : Target) {shape : Shape} (framed : target.frame config = some shape)
    (listed : target.Listed config) (each : ∀ part ∈ target.parts, part.SpellsSound config) {decoder : Decoder}
    (unpaired : WithoutPairedUnits config target decoder) : SpellsAt Item.Sound (target.read config) decoder := by
  refine target.spellsAt_frame strict keyed framed fun s inside begun => ?_
  intro others s₁ decoder₁ index s₂ inner type walk announced known
  have part : type ∈ target.parts := by
    rcases target.mem_parts known with part | ⟨-, name, expected, fields, rfl, plain, unknown⟩
    · exact part
    · cases framed
      obtain ⟨_, rfl⟩ := eq_of_begun begun
      have same : s₁.shape = config.recordShape name fields := walk.shape
      have kind : (config.recordShape name fields).kind = .keyed := Config.kind_shape keyed name _
      have hasKeys : s₁.shape.hasKeys = true := by simp [Shape.hasKeys, same, kind, plain]
      rcases key_of_announced strict hasKeys announced with ⟨none, -⟩ | ⟨_, _, found, -, -, -, -, bound⟩
      · cases none
      · cases found
        rw [same] at bound
        have member := listed _ (List.getElem_mem bound)
        obtain ⟨field, present, named⟩ := List.mem_map.mp member
        have other := List.find?_eq_none.mp unknown field present
        simp [Shape.elementName, Shape.element, bound, named] at other
  exact each type part inner (unpaired.inside (.element framed begun walk announced known))

end

theorem spellsAt_readAhead {α : Type} {next : Unit → DecodeM α} {decoder : Decoder}
    (behind : ∀ between, outcome readAhead decoder = .ok ((), between) → SpellsAt Item.Sound (next ()) between) :
    SpellsAt Item.Sound (readAhead >>= next) decoder := by
  intro a after found
  obtain ⟨⟨⟨⟩, between⟩, ahead, goes⟩ := bind_eq_ok.mp (outcome_bind .. ▸ found)
  obtain ⟨⟨tags, body⟩, sound, spelled⟩ := behind between ahead a after goes
  obtain ⟨⟨numbers, tagged⟩, read, done⟩ := bind_eq_ok.mp (outcome_bind .. ▸ ahead)
  cases done
  obtain ⟨rest, readTags, rfl⟩ := rest_of_cursor read
  obtain ⟨ahead, fit, -, split, -⟩ := Cursor.tags_of_readTags readTags
  refine ⟨⟨ahead ++ tags, body⟩, sound.tagged fun tag member => ?_, ?_⟩
  · rcases List.mem_append.mp member with first | second
    · exact fit tag first
    · exact sound.wellFormed.formed.tags tag second
  · change rest = _ at spelled
    rw [split, spelled, Item.bytes, Item.bytes, tagBytes, tagBytes, tagBytes, List.flatMap_append]
    simp only [List.append_assoc]

section
variable {config : Config}

theorem null_of_nullAt {field : Option Element} {decoder after : Decoder} {null : Bool}
    (found : outcome (nullAt config field) decoder = .ok (null, after)) :
    (null = false ∧ after = decoder) ∨
      (null = true ∧ ∃ body, (Item.mk [] body).Sound ∧ decoder.rest = bodyBytes body ++ after.rest) := by
  obtain ⟨⟨byte, _⟩, peeked, found⟩ := bind_eq_ok.mp (outcome_bind .. ▸ found)
  obtain ⟨rest, looked, rfl⟩ := rest_of_cursor peeked
  obtain ⟨rfl, more, begins⟩ := Cursor.eq_of_peek looked
  dsimp only at found
  split at found
  · rename_i null
    have stops : Major.ofInitial byte ≠ .tag := by
      rcases null with rfl | rfl | ⟨rfl, -⟩ <;> decide
    obtain ⟨⟨_, between⟩, took, found⟩ := bind_eq_ok.mp (outcome_bind .. ▸ found)
    rw [outcome_takeTags, begins, Cursor.outcome_readTags_untagged stops, ok_bind] at took
    obtain ⟨_, -, same⟩ := map_eq_ok.mp took
    cases same
    cases found
    rw [begins]
    refine .inr ⟨rfl, ?_⟩
    rcases null with rfl | rfl | ⟨rfl, -⟩
    · exact ⟨.simple ⟨.immediate, 22⟩, Item.sound_of_leaf rfl rfl (by decide) (by decide) (by simp), rfl⟩
    · exact ⟨.simple ⟨.immediate, 23⟩, Item.sound_of_leaf rfl rfl (by decide) (by decide) (by simp), rfl⟩
    · exact ⟨.map (.counted .immediate) [], Item.sound_of_leaf rfl trivial (by decide) (by decide) (by simp), rfl⟩
  · cases found
    exact .inl ⟨rfl, rfl⟩

theorem spellsAt_readOption {read : DecodeM Value} {decoder : Decoder}
    (inside : ∀ inner, outcome (readNull config) decoder = .ok (false, inner) → SpellsAt Item.Sound read inner) :
    SpellsAt Item.Sound (readOption config read) decoder := by
  have ahead : readOption config read = readAhead >>= fun _ => (do
      if ← (do nullAt config (← get).field) then return .none else return .some (← read)) := by
    simp only [readOption, readNull_eq, bind_assoc]
  rw [ahead]
  refine spellsAt_readAhead fun between ahead => ?_
  intro value after found
  obtain ⟨⟨null, inner⟩, looked, goes⟩ := bind_eq_ok.mp (outcome_bind .. ▸ found)
  rcases null_of_nullAt looked with ⟨rfl, rfl⟩ | ⟨rfl, body, sound, spelled⟩
  · have present : outcome (readNull config) decoder = .ok (false, inner) := by
      rw [readNull_eq, outcome_bind, ahead, ok_bind]
      exact looked
    change outcome (read >>= fun value => pure (Value.some value)) inner = _ at goes
    obtain ⟨⟨value, _⟩, held, same⟩ := bind_eq_ok.mp (outcome_bind .. ▸ goes)
    cases same
    exact inside inner present _ _ held
  · cases goes
    exact ⟨⟨[], body⟩, sound, by rw [spelled, Item.bytes]; rfl⟩

theorem known_of_contentOf {parent text : String} {variants : List (Variant Ty)}
    {content : ContentReader (DecodeM Value)}
    (found : contentOf (variantReaders config parent variants) text = .ok content) :
    ∃ variant ∈ variants, variants.find? (·.name == text) = some variant ∧
      content = contentReader config parent variant.name variant.content := by
  rw [contentOf, find?_variantReaders] at found
  cases known : variants.find? (·.name == text) with
  | none =>
    rw [known] at found
    cases found
  | some variant =>
    rw [known] at found
    cases found
    exact ⟨variant, List.mem_of_find?_eq_some known, rfl, rfl⟩

theorem itemsFrom_pair (strict : config.ignoreUnknownKeys = false) {parent : String} {variants : List (Variant Ty)}
    {decoder decoder₁ : Decoder} {s : OpenStructure}
    (begun : outcome (beginPair config) decoder = .ok ((.array, s), decoder₁)) (list : s.shape.kind ≠ .map)
    (unpaired : ¬PairsUnit config variants decoder)
    (carried : ∀ variant ∈ variants, ∀ target inner, variant.content.target parent variant.name = some target →
      Enters config (.value (.enumeration parent variants)) decoder target inner →
        SpellsAt Item.Sound (target.read config) inner) :
    ItemsFrom s (pairInside config (variantReaders config parent variants) s) decoder₁ := by
  intro value s' after found
  rw [pairInside_eq] at found
  obtain ⟨⟨⟨first, s₁⟩, decoder₂⟩, firstAnnounced, found⟩ := bind_eq_ok.mp (outcome_bind .. ▸ found)
  cases first with
  | none => cases found
  | some first =>
    obtain ⟨⟨payload, decoder₃⟩, named, found⟩ := bind_eq_ok.mp (outcome_bind .. ▸ found)
    obtain ⟨⟨content, _⟩, chosen, found⟩ := bind_eq_ok.mp (outcome_bind .. ▸ found)
    obtain ⟨_, told, same⟩ := map_eq_ok.mp (outcome_ofExcept .. ▸ chosen)
    cases same
    obtain ⟨⟨name, content⟩, member, known, rfl⟩ := known_of_contentOf told
    cases carries : content.target parent name with
    | none =>
      cases content with
      | unit => exact absurd (.intro begun firstAnnounced named known) unpaired
      | _ => cases carries
    | some target =>
      obtain ⟨form, reads⟩ := @contentOf_of_known config _ _ _ _ _ _ known carries
      rw [told, Except.ok.injEq] at reads
      dsimp only at found reads
      rw [reads, behindName] at found
      obtain ⟨⟨⟨second, s₂⟩, inner⟩, secondAnnounced, found⟩ := bind_eq_ok.mp (outcome_bind .. ▸ found)
      cases second with
      | none => cases found
      | some second =>
        obtain ⟨⟨value, behind⟩, read, same⟩ := bind_eq_ok.mp (outcome_bind .. ▸ found)
        cases same
        have entered := Enters.variant begun firstAnnounced named known secondAnnounced carries
        obtain ⟨nameItem, nameSound, nameSpelled⟩ := spellsAt_readText decoder₂ _ _ named
        obtain ⟨item, sound, spelled⟩ := carried _ member target inner carries entered _ _ read
        have shape : s'.shape = s.shape :=
          (shape_of_nextElement secondAnnounced).trans (shape_of_nextElement firstAnnounced)
        have ended : ItemsBetween s' behind s' behind := ⟨[], by simp, rfl, .refl s'⟩
        refine ⟨OpenStructure.isAtValue_of_other (shape ▸ list) _ _, ?_⟩
        exact .element strict firstAnnounced nameSound nameSpelled (.element strict secondAnnounced sound spelled ended)

theorem spellsAt_readVariant (strict : config.ignoreUnknownKeys = false) {parent : String}
    {variants : List (Variant Ty)} {decoder : Decoder} (unpaired : ¬PairsUnit config variants decoder)
    (carried : ∀ variant ∈ variants, ∀ target inner, variant.content.target parent variant.name = some target →
      Enters config (.value (.enumeration parent variants)) decoder target inner →
        SpellsAt Item.Sound (target.read config) inner) :
    SpellsAt Item.Sound (readVariant config (variantReaders config parent variants)) decoder := by
  change SpellsAt Item.Sound (readAhead >>= fun _ =>
    cursor Cursor.peekMajor >>= variantOf config (variantReaders config parent variants)) decoder
  refine spellsAt_readAhead fun between ahead => ?_
  intro value after found
  obtain ⟨⟨major, peeked⟩, looked, found⟩ := bind_eq_ok.mp (outcome_bind .. ▸ found)
  have same : peeked = between := by
    obtain ⟨rest, opens, rfl⟩ := rest_of_cursor looked
    rcases between with ⟨_ | ⟨byte, more⟩, field, pending⟩
    · cases opens
    · cases opens
      rfl
  subst same
  cases major with
  | text =>
    have bare : SpellsAt Item.Sound (readBareVariant config (variantReaders config parent variants)) peeked := by
      refine (spellsAt_readText peeked).andThen fun _ => (idle_ofExcept _).bind fun content => ?_
      cases content with
      | unit => exact idle_pure _
      | content => exact idle_throw _
    exact bare value after found
  | array =>
    change outcome (readVariantPair config _) peeked = _ at found
    rw [readVariantPair_eq] at found
    refine spellsAt_enclosed (fun s inside begins => ?_) value after found
    have begun : outcome (beginPair config) decoder = .ok ((.array, s), inside) := by
      rw [beginPair, outcome_bind, ahead, ok_bind, outcome_bind, looked, ok_bind, outcome_bind, begins]
      rfl
    obtain ⟨_, rfl⟩ := eq_of_begun begins
    exact itemsFrom_pair strict begun (show Shape.polymorphic.kind ≠ .map by decide) unpaired carried
  | _ => cases found

end

section
variable {config : Config} (strict : config.ignoreUnknownKeys = false)
  (keyed : ∀ descriptor ∈ config.descriptors, descriptor.kind = .keyed)
include strict keyed

theorem Ty.spellsSound {type : Ty} (wanted : type.Everywhere (· ≠ .ignored))
    (listed : type.Everywhere config.ListsFieldsOf) : type.SpellsSound config := by
  induction type using Ty.induction with
  | step type ih =>
    obtain ⟨here, wanted⟩ := wanted
    obtain ⟨lists, listed⟩ := listed
    have each : ∀ part ∈ type.parts, part.SpellsSound config := fun part member =>
      ih part member (wanted part member) (listed part member)
    intro decoder unpaired
    cases type with
    | option type =>
      exact spellsAt_readOption fun inner present =>
        each type (List.mem_singleton_self _) inner (unpaired.inside (.option present))
    | newtype name type =>
      exact SpellsAt.map (each type (List.mem_singleton_self _) decoder (unpaired.inside .newtype)) _
    | delayed type => exact each (type ()) (List.mem_singleton_self _) decoder (unpaired.inside .delayed)
    | ignored => exact absurd rfl here
    | seq type =>
      exact Target.spellsAt_listed strict keyed (.value (.seq type)) rfl trivial each unpaired
    | map keys values =>
      exact Target.spellsAt_listed strict keyed (.value (.map keys values)) rfl trivial each unpaired
    | tuple types =>
      exact Target.spellsAt_listed strict keyed (.tuple _ types) rfl trivial each (unpaired.inside .tuple)
    | tupleStruct name types =>
      exact Target.spellsAt_listed strict keyed (.tuple _ types) rfl trivial each (unpaired.inside .tupleStruct)
    | record name fields =>
      have here : config.ListsFields name fields := lists (name, fields) (List.mem_singleton_self _)
      exact Target.spellsAt_listed strict keyed (.record name _ fields) rfl here each (unpaired.inside .record)
    | enumeration parent variants =>
      refine spellsAt_readVariant strict (unpaired parent variants decoder .here) ?_
      intro variant member target inner carries enters
      have inside : ∀ part ∈ variant.content.parts, part.SpellsSound config := fun part within =>
        each part (Ty.mem_parts_enumeration member within)
      have unpaired := unpaired.inside enters
      rcases variant with ⟨name, content⟩
      cases content with
      | unit => cases carries
      | newtype type =>
        cases carries
        exact inside type (List.mem_singleton_self _) inner unpaired
      | tuple types =>
        cases carries
        exact Target.spellsAt_listed strict keyed (.tuple _ types) rfl trivial inside unpaired
      | record fields =>
        cases carries
        have here : config.ListsFields name fields :=
          lists (name, fields) (List.mem_flatMap.mpr ⟨_, member, List.mem_singleton_self _⟩)
        exact Target.spellsAt_listed strict keyed (.record name _ fields) rfl here inside unpaired
    | bool | int | single | double | char | text | textSlice | bytes | bytesSlice | unit | unitStruct | embedded | any
    | identifier =>
      refine Ty.IsClosed.spellsAt ?_ decoder
      trivial

omit strict keyed in
theorem Item.Sound.decode_any {item : Item} (sound : item.Sound) (config : Config) :
    config.decode .any item.bytes = .ok item.denotation := by
  have visited : Body.visitItem item = .ok item.denotation :=
    (Body.tells_of_wellFormed sound.wellFormed _).mpr ⟨sound.plain, rfl⟩
  rw [← visited, ← ItemReader.any_on config]
  refine Decoder.whole_bytes fun field pending rest => ?_
  simp only [Ty.read, readAny, outcome_bind, outcome_get, ok_bind]
  exact followsAt_readGeneric sound.wellFormed (by simp only [List.length_append]; omega) _ _ _

-- A document that is accepted with such a type is one well-formed item, and it is accepted without a type.
theorem Config.decode_any_of_decode {type : Ty} (wanted : type.Everywhere (· ≠ .ignored))
    (listed : type.Everywhere config.ListsFieldsOf) {input : Bytes} {value : Value}
    (unpaired : ∀ parent variants inner, config.Visits type input (.value (.enumeration parent variants)) inner →
      ¬PairsUnit config variants inner)
    (accepted : config.decode type input = .ok value) (form : Wire.FloatForm) :
    ∃ item : Item, item.WellFormed ∧ item.bytes = input ∧
      (Config.standard form).decode .any input = .ok item.denotation := by
  obtain ⟨after, ran, nothing⟩ := Decoder.outcome_of_whole accepted
  obtain ⟨item, sound, spelled⟩ := Ty.spellsSound strict keyed wanted listed _ unpaired _ _ ran
  rw [nothing, List.append_nil] at spelled
  change input = item.bytes at spelled
  subst spelled
  exact ⟨item, sound.wellFormed, rfl, sound.decode_any _⟩

end

def Ty.signal : Ty := .enumeration "Signal" [⟨"Off", .unit⟩, ⟨"Level", .newtype (.int .u8)⟩]

def Ty.range : Ty :=
  .enumeration "Range"
    [⟨"Span", .tuple [.int .i8, .int .i8]⟩, ⟨"Window", .record [⟨"from", .int .u8, none⟩]⟩]

def Ty.spot : Ty := .record "Spot" [⟨"x", .int .u8, none⟩, ⟨"y", .option .double, some .none⟩]

def Ty.report : Ty :=
  .record "Report"
    [⟨"range", .range, none⟩, ⟨"spots", .seq .spot, none⟩, ⟨"raw", .bytes, none⟩,
      ⟨"extra", .map (.int .u8) .any, none⟩, ⟨"sealed", .embedded .bool, none⟩]

def Config.reports : Config :=
  { descriptors :=
      [⟨"Report", .keyed, none,
          [{ name := "range", label := some 1, keyTags := [6] }, { name := "spots", label := some 2 },
            { name := "raw", label := some 3 }, { name := "extra", label := some 4 },
            { name := "sealed", label := some 5, valueTags := [24] }]⟩,
        ⟨"Spot", .keyed, some [50], [{ name := "x" }, { name := "y" }]⟩,
        ⟨"Window", .keyed, none, [{ name := "from", label := some 0 }]⟩] }

def Value.report : Value :=
  .record "Report"
    [("range", .variant "Window" (.record "Window" [("from", .int .u8 7)])),
      ("spots", .seq [.record "Spot" [("x", .int .u8 5), ("y", .none)],
        .record "Spot" [("x", .int .u8 6), ("y", .none)]]),
      ("raw", .bytes [1, 2]), ("extra", .map [(.int .u8 9, .visited .unit .unit)]),
      ("sealed", .embedded (.bool true) (Option.some [0xf5]))]

def Bytes.report : Bytes :=
  [0xbf,
    0xc6, 0x01, 0x9f, 0x66, 0x57, 0x69, 0x6e, 0x64, 0x6f, 0x77, 0xa1, 0x00, 0x07, 0xff,
    0x02, 0x82, 0xd8, 0x32, 0x81, 0x05, 0xd8, 0x32, 0x9f, 0x06, 0xf6, 0xff,
    0x03, 0x82, 0x01, 0x02,
    0x04, 0xa1, 0x09, 0xf7,
    0x05, 0xd8, 0x18, 0x41, 0xf5,
    0xff]

def Bytes.signalled : Bytes := 0x82 :: 0x63 :: 0x4f :: 0x66 :: 0x66 :: report

def Config.Regards (config : Config) (type : Ty) : Prop := type ≠ .ignored ∧ config.ListsFieldsOf type

def Config.RegardsCarrying (config : Config) (type : Ty) : Prop := config.Regards type ∧ ¬type.HasUnit

theorem Ty.regards_leaf {type : Ty} (leaf : type.parts = []) (wanted : type ≠ .ignored) (alone : type.records = [])
    (carrying : ¬type.HasUnit) : type.Everywhere Config.reports.RegardsCarrying :=
  everywhere_of_leaf ⟨⟨wanted, by simp [Config.ListsFieldsOf, alone]⟩, carrying⟩ leaf

theorem Ty.regards_int (kind : IntKind) : (Ty.int kind).Everywhere Config.reports.RegardsCarrying :=
  regards_leaf rfl (by rintro ⟨⟩) rfl id

theorem Ty.regards_range : Ty.range.Everywhere Config.reports.RegardsCarrying := by
  refine .intro ⟨⟨by rintro ⟨⟩, by decide⟩, ?_⟩ fun part member => ?_
  · simp [HasUnit, range]
  · obtain ⟨kind, rfl⟩ : ∃ kind, part = .int kind := by
      simp only [range, parts, Content.parts, List.flatMap_cons, List.flatMap_nil, List.map_cons, List.map_nil,
        List.cons_append, List.nil_append, List.mem_cons, List.not_mem_nil, or_false] at member
      rcases member with rfl | rfl | rfl <;> exact ⟨_, rfl⟩
    exact regards_int kind

theorem Ty.regards_spot : Ty.spot.Everywhere Config.reports.RegardsCarrying := by
  have y : (Ty.option .double).Everywhere Config.reports.RegardsCarrying :=
    .intro ⟨⟨by rintro ⟨⟩, by decide⟩, id⟩ (List.forall_mem_singleton.mpr (regards_leaf rfl (by rintro ⟨⟩) rfl id))
  refine .intro ⟨⟨by rintro ⟨⟩, by decide⟩, id⟩ ?_
  exact List.forall_mem_cons.mpr ⟨regards_int .u8, List.forall_mem_singleton.mpr y⟩

theorem Ty.regards_report : Ty.report.Everywhere Config.reports.RegardsCarrying := by
  have spots : (Ty.seq .spot).Everywhere Config.reports.RegardsCarrying :=
    .intro ⟨⟨by rintro ⟨⟩, by decide⟩, id⟩ (List.forall_mem_singleton.mpr regards_spot)
  have extra : (Ty.map (.int .u8) .any).Everywhere Config.reports.RegardsCarrying :=
    .intro ⟨⟨by rintro ⟨⟩, by decide⟩, id⟩ (List.forall_mem_cons.mpr ⟨regards_int .u8,
      List.forall_mem_singleton.mpr (regards_leaf rfl (by rintro ⟨⟩) rfl id)⟩)
  have closed : (Ty.embedded .bool).Everywhere Config.reports.RegardsCarrying :=
    .intro ⟨⟨by rintro ⟨⟩, by decide⟩, id⟩ (List.forall_mem_singleton.mpr (regards_leaf rfl (by rintro ⟨⟩) rfl id))
  refine .intro ⟨⟨by rintro ⟨⟩, by decide⟩, id⟩ fun part member => ?_
  simp only [report, parts, List.map_cons, List.map_nil, List.mem_cons, List.not_mem_nil, or_false] at member
  rcases member with rfl | rfl | rfl | rfl | rfl
  · exact regards_range
  · exact spots
  · exact regards_leaf rfl (by rintro ⟨⟩) rfl id
  · exact extra
  · exact closed

theorem Ty.regards_signalled : (Ty.tuple [.signal, .report]).Everywhere Config.reports.Regards := by
  have signal : Ty.signal.Everywhere Config.reports.Regards :=
    .intro ⟨by rintro ⟨⟩, by decide⟩ (List.forall_mem_singleton.mpr ((regards_int .u8).mono fun _ => And.left))
  have report : Ty.report.Everywhere Config.reports.Regards := regards_report.mono fun _ => And.left
  exact .intro ⟨by rintro ⟨⟩, by decide⟩ (List.forall_mem_cons.mpr ⟨signal, List.forall_mem_singleton.mpr report⟩)

theorem Config.withoutPairedUnits_signalled :
    WithoutPairedUnits Config.reports (.value (.tuple [.signal, .report])) ⟨Bytes.signalled, none, []⟩ := by
  have begun : outcome (beginStructure Config.reports .list) ⟨Bytes.signalled, none, []⟩ =
      .ok (⟨.list, some 2, 0⟩, ⟨Bytes.signalled.tail, none, []⟩) := rfl
  have announced : outcome (nextElement Config.reports ⟨.list, some 2, 0⟩) ⟨Bytes.signalled.tail, none, []⟩ =
      .ok ((some 0, ⟨.list, some 1, 1⟩), ⟨Bytes.signalled.tail, none, []⟩) := rfl
  obtain ⟨e, alone⟩ : ∃ e, outcome (beginPair Config.reports) ⟨Bytes.signalled.tail, none, []⟩ = .error e := ⟨_, rfl⟩
  have signal : WithoutPairedUnits Config.reports (.value .signal) ⟨Bytes.signalled.tail, none, []⟩ := by
    refine withoutPairedUnits_of_enters (fun parent variants same => ?_) fun between decoder₁ enters => ?_
    · rintro ⟨begun, -⟩
      rw [alone] at begun
      cases begun
    · cases enters with
      | element framed => cases framed
      | variant begun =>
        rw [alone] at begun
        cases begun
  refine withoutPairedUnits_of_enters (by rintro _ _ ⟨⟩) fun between decoder₁ enters => ?_
  cases enters with
  | element framed => cases framed
  | tuple =>
    refine withoutPairedUnits_of_tuple (fun s s₁ index decoder₁ inner begun' announced' => ?_) ?_
    · rw [begun] at begun'
      cases begun'
      rw [announced] at announced'
      cases announced'
      exact signal
    · exact List.forall_mem_singleton.mpr (Ty.regards_report.mono fun _ => And.right)

theorem Config.decode_signalled :
    Config.reports.decode (.tuple [.signal, .report]) Bytes.signalled = .ok (.tuple [.unitVariant "Off", .report]) ∧
      ∃ item : Item, item.WellFormed ∧ item.bytes = Bytes.signalled ∧
        (Config.standard .fixed).decode .any Bytes.signalled = .ok item.denotation := by
  have accepted : Config.reports.decode (.tuple [.signal, .report]) Bytes.signalled =
      .ok (.tuple [.unitVariant "Off", .report]) := by decide +kernel
  have unpaired := Config.withoutPairedUnits_signalled
  refine ⟨accepted, Config.decode_any_of_decode rfl (by decide) ?_ ?_ unpaired accepted .fixed⟩
  · exact Ty.regards_signalled.mono fun _ => And.left
  · exact Ty.regards_signalled.mono fun _ => And.right

end TypedCbor
