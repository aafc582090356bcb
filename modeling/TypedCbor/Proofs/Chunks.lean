import TypedCbor.Proofs.Chunks.Broken
import TypedCbor.Proofs.Rechunked.Typed
import TypedCbor.Proofs.Value

namespace TypedCbor

open Decoder

inductive LooksAt (config : Config) : OpenStructure → Bytes → OpenStructure → Bytes → Prop where
  | here {s : OpenStructure} {input : Bytes} : LooksAt config s input s input
  | passed {s s' : OpenStructure} {input between behind rest inner : Bytes} {tags : List UInt64} {key : Key}
      (goesOn : outcome (isExhausted s) input = .ok (false, input))
      (tagged : outcome Cursor.readTags input = .ok (tags, between))
      (named : outcome readKey between = .ok (key, behind)) (unknown : key.resolve s.shape = none)
      (ignores : config.ignoreUnknownKeys = true) (skipped : outcome Cursor.skipItem behind = .ok ((), rest))
      (more : LooksAt config s.advanced rest s' inner) : LooksAt config s input s' inner

-- Where a type looks for what may be a string: in front of a value it reads, or of anything inside that is closed to
-- it, of the name in a pair, of a key, and of all these in a document that a value holds. Nothing that is passed over
-- is among them.
inductive Config.ReadsAt (config : Config) : Ty → Bytes → Bytes → Prop where
  | value {type : Ty} {input : Bytes} {target : Target} {inner : Decoder}
      (visits : config.Visits type input target inner) (direct : ¬ target.Wraps) (wanted : target ≠ .value .ignored) :
      ReadsAt config type input inner.rest
  | nested {type part : Ty} {input rest : Bytes} {inner : Decoder}
      (visits : config.Visits type input (.value part) inner) (closed : part.IsClosed)
      (nested : Nested inner.rest rest) : ReadsAt config type input rest
  | name {type : Ty} {input : Bytes} {parent : String} {variants : List (Variant Ty)} {s s₁ : OpenStructure}
      {first : Nat} {decoder decoder₁ inner : Decoder}
      (visits : config.Visits type input (.value (.enumeration parent variants)) decoder)
      (begun : outcome (beginPair config) decoder = .ok ((.array, s), decoder₁))
      (announced : outcome (nextElement config s) decoder₁ = .ok ((some first, s₁), inner)) :
      ReadsAt config type input inner.rest
  | key {type : Ty} {input rest : Bytes} {name expected : String} {fields : List (Field Ty)} {s s₁ s₂ : OpenStructure}
      {others : List Nat} {decoder decoder₁ decoder₂ : Decoder}
      (visits : config.Visits type input (.record name expected fields) decoder)
      (keyed : (config.recordShape name fields).hasKeys = true)
      (begun : outcome (beginStructure config (config.recordShape name fields)) decoder = .ok (s, decoder₁))
      (walk : Walk config (Target.part config (.record name expected fields)) [] s decoder₁ others s₁ decoder₂)
      (looks : LooksAt config s₁ decoder₂.rest s₂ rest) (goesOn : outcome (isExhausted s₂) rest = .ok (false, rest)) :
      ReadsAt config type input rest
  | embedded {type part : Ty} {input content after rest : Bytes} {tags : List Head} {head : Head} {inner : Decoder}
      (visits : config.Visits type input (.value (.embedded part)) inner) (tagsFit : ∀ tag ∈ tags, tag.Fits)
      (fits : head.Fits) (length : content.length = head.n)
      (spelled : inner.rest = tagBytes tags ++ (openingBytes .bytes (some head) ++ (content ++ after)))
      (inside : ReadsAt config part content rest) : ReadsAt config type input rest

section
variable {config : Config}

theorem Unrolls.accepted {β ι : Type} {part : List Nat → Nat → Option Ty} {fits : ι → List Nat → OpenStructure → Prop}
    {loop : ι → OpenStructure → DecodeM (β × OpenStructure)} (unrolls : Unrolls config part fits loop)
    {others others' : List Nat} {s s₁ : OpenStructure} {decoder decoder₁ : Decoder}
    (walk : Walk config part others s decoder others' s₁ decoder₁) {x : ι} (fit : fits x others s)
    {p : β × OpenStructure} {after : Decoder} (found : outcome (loop x s) decoder = .ok (p, after)) :
    ∃ x' q behind, outcome (loop x' s₁) decoder₁ = .ok (q, behind) := by
  induction walk generalizing x p after with
  | done => exact ⟨x, p, after, found⟩
  | @next _ _ _ _ _ _ _ _ _ _ type value announced known read _ ih =>
    obtain ⟨x', add, fits', law⟩ := unrolls.step fit known ⟨_, _, announced⟩
    rw [law _ _ announced, read, ok_bind] at found
    obtain ⟨⟨q, behind⟩, goes, -⟩ := map_eq_ok.mp found
    exact ih (fits' value) goes

theorem nextByKey_of_goesOn {rounds : Nat} {s : OpenStructure} {decoder : Decoder}
    (goesOn : outcome (isExhausted s) decoder.rest = .ok (false, decoder.rest)) :
    outcome (nextByKey config (rounds + 1) s) decoder = outcome Cursor.readTags decoder.rest >>= fun p =>
      outcome readKey p.2 >>= fun q =>
        outcome (behindKey config (nextByKey config rounds s.advanced) s p.1 q.1) (decoder.before q.2) := by
  rw [nextByKey_succ, outcome_bind, outcome_cursor, goesOn, ok_map, ok_bind]
  dsimp only
  rw [if_neg (by decide), outcome_bind, outcome_cursor]
  cases outcome Cursor.readTags decoder.rest with
  | error e => rfl
  | ok p =>
    rw [ok_map, ok_bind, ok_bind, outcome_bind, outcome_cursor]
    cases outcome readKey p.2 with
    | error e => rfl
    | ok q => rfl

theorem LooksAt.key {s s' : OpenStructure} {input inner : Bytes} (looks : LooksAt config s input s' inner)
    (goesOn : outcome (isExhausted s') inner = .ok (false, inner)) {rounds : Nat} {decoder after : Decoder}
    {p : Option Nat × OpenStructure} (same : decoder.rest = input)
    (found : outcome (nextByKey config rounds s) decoder = .ok (p, after)) :
    ∃ tags between key behind, outcome Cursor.readTags inner = .ok (tags, between) ∧
      outcome readKey between = .ok (key, behind) := by
  induction looks generalizing rounds decoder p after with
  | here =>
    cases rounds with
    | zero => cases found
    | succ rounds =>
      subst same
      rw [nextByKey_of_goesOn goesOn] at found
      obtain ⟨⟨tags, between⟩, tagged, found⟩ := bind_eq_ok.mp found
      obtain ⟨⟨key, behind⟩, named, -⟩ := bind_eq_ok.mp found
      exact ⟨tags, between, key, behind, tagged, named⟩
  | passed here tagged named unknown ignores skipped _ ih =>
    cases rounds with
    | zero => cases found
    | succ rounds =>
      subst same
      rw [nextByKey_of_goesOn here, tagged, ok_bind, named, ok_bind, behindKey, unknown] at found
      dsimp only at found
      rw [if_pos ignores, outcome_bind, outcome_cursor, rest_before, skipped] at found
      exact ih goesOn rfl found

theorem LooksAt.not_broken {s s' : OpenStructure} {inner : Bytes} {decoder after : Decoder}
    (looks : LooksAt config s decoder.rest s' inner)
    (goesOn : outcome (isExhausted s') inner = .ok (false, inner)) (keyed : s.shape.hasKeys = true)
    {p : Option Nat × OpenStructure} (found : outcome (nextElement config s) decoder = .ok (p, after)) :
    ¬ BrokenString inner := by
  intro broken
  rw [nextElement, if_pos keyed, outcome_bind, outcome_get, ok_bind] at found
  obtain ⟨tags, between, key, behind, tagged, named⟩ := looks.key goesOn rfl found
  obtain ⟨major, inside, string, broken, rfl⟩ := brokenString_behindTags broken tagged
  exact broken (chunked_of_readKey string named)

theorem insists_nested {type : Ty} (closed : type.IsClosed) {decoder after : Decoder} {value : Value} {rest : Bytes}
    (found : outcome (type.read config) decoder = .ok (value, after)) (nested : Nested decoder.rest rest) :
    ¬ BrokenString rest := by
  intro broken
  obtain ⟨item, sound, spelled⟩ := closed.spellsAt decoder value after found
  obtain ⟨part, behind, wellFormed, rfl⟩ := nested.wellFormed broken.ne_closing sound.wellFormed spelled
  exact wellFormed.formed.not_broken behind broken

theorem insists_name {parent : String} {variants : List (Variant Ty)} {s s₁ : OpenStructure} {first : Nat}
    {decoder decoder₁ inner after : Decoder} {value : Value}
    (begun : outcome (beginPair config) decoder = .ok ((.array, s), decoder₁))
    (announced : outcome (nextElement config s) decoder₁ = .ok ((some first, s₁), inner))
    (found : outcome ((Ty.enumeration parent variants).read config) decoder = .ok (value, after)) :
    ¬ BrokenString inner.rest := by
  rw [Ty.read, variant_of_begun begun] at found
  obtain ⟨⟨_, _⟩, inside, -⟩ := bind_eq_ok.mp (outcome_bind .. ▸ found)
  rw [pairInside_eq, outcome_bind, announced, ok_bind] at inside
  exact insists_readText.andThen inner _ _ inside

theorem insists_key {name expected : String} {fields : List (Field Ty)} {s s₁ s₂ : OpenStructure} {others : List Nat}
    {decoder decoder₁ decoder₂ after : Decoder} {value : Value} {rest : Bytes}
    (keyed : (config.recordShape name fields).hasKeys = true)
    (begun : outcome (beginStructure config (config.recordShape name fields)) decoder = .ok (s, decoder₁))
    (walk : Walk config (Target.part config (.record name expected fields)) [] s decoder₁ others s₁ decoder₂)
    (looks : LooksAt config s₁ decoder₂.rest s₂ rest) (goesOn : outcome (isExhausted s₂) rest = .ok (false, rest))
    (found : outcome ((Target.record name expected fields).read config) decoder = .ok (value, after)) :
    ¬ BrokenString rest := by
  have plain : (config.recordShape name fields).isArrayFramed = false := by
    simp only [Shape.hasKeys, Bool.and_eq_true, Bool.not_eq_true'] at keyed
    exact keyed.2
  rw [Target.read, record_of_begun begun, if_neg (by simp [plain]), outcome_map] at found
  obtain ⟨⟨_, _⟩, inside, -⟩ := map_eq_ok.mp found
  obtain ⟨⟨_, _⟩, loop, -⟩ := bind_eq_ok.mp (outcome_bind .. ▸ inside)
  obtain ⟨_, rfl⟩ := eq_of_begun begun
  obtain ⟨seen, _, _, goes⟩ := (unrolls_fields config name expected fields plain).accepted walk
    (x := []) ⟨rfl, fun _ _ => rfl⟩ loop
  rw [placeFields_eq] at goes
  obtain ⟨⟨_, _⟩, next, -⟩ := bind_eq_ok.mp goes
  exact looks.not_broken goesOn (by rw [walk.shape]; exact keyed) next

theorem decode_of_readEmbedded {part : Ty} {content after : Bytes} {tags : List Head} {head : Head}
    {inner behind : Decoder} {value : Value} (tagsFit : ∀ tag ∈ tags, tag.Fits) (fits : head.Fits)
    (length : content.length = head.n)
    (spelled : inner.rest = tagBytes tags ++ (openingBytes .bytes (some head) ++ (content ++ after)))
    (found : outcome ((Ty.embedded part).read config) inner = .ok (value, behind)) :
    ∃ held, config.decode part content = .ok held := by
  obtain ⟨⟨_, _⟩, plain, found⟩ := bind_eq_ok.mp (outcome_bind .. ▸ found)
  obtain ⟨⟨⟨header, own⟩, between⟩, opened, same⟩ := bind_eq_ok.mp (outcome_bind .. ▸ plain)
  cases same
  have opening : Opening tags .bytes (some head) := ⟨tagsFit, Opening.ofTag fits, nofun, nofun⟩
  obtain ⟨rfl, behind⟩ := header_of_opening opening spelled opened
  have known := openingHeader_major .bytes (Opening.ofTag fits)
  dsimp only at found
  rw [if_pos known] at found
  change outcome (cursor (Cursor.take head.number.toNat) >>= _) between = _ at found
  rw [fits.toNat_number, ← length, outcome_bind, outcome_cursor, behind, Cursor.outcome_take, ok_map, ok_bind] at found
  obtain ⟨⟨held, _⟩, told, -⟩ := bind_eq_ok.mp (outcome_bind .. ▸ found)
  obtain ⟨_, decoded, -⟩ := map_eq_ok.mp (outcome_ofExcept .. ▸ told)
  exact ⟨_, decoded⟩

theorem Config.ReadsAt.not_broken {type : Ty} {input rest : Bytes} (reads : config.ReadsAt type input rest)
    {value : Value} (accepted : config.decode type input = .ok value) : ¬ BrokenString rest := by
  induction reads generalizing value with
  | value visits direct wanted =>
    obtain ⟨_, _, found⟩ := visits.accepted accepted
    exact Target.insists direct wanted _ _ _ found
  | nested visits closed nested =>
    obtain ⟨_, _, found⟩ := visits.accepted accepted
    exact insists_nested closed found nested
  | name visits begun announced =>
    obtain ⟨_, _, found⟩ := visits.accepted accepted
    exact insists_name begun announced found
  | key visits keyed begun walk looks goesOn =>
    obtain ⟨_, _, found⟩ := visits.accepted accepted
    exact insists_key keyed begun walk looks goesOn found
  | embedded visits tagsFit fits length spelled _ ih =>
    obtain ⟨_, _, found⟩ := visits.accepted accepted
    obtain ⟨held, inside⟩ := decode_of_readEmbedded tagsFit fits length spelled found
    exact ih inside

end

-- Chunks are invisible to a type that is not told of them, and nothing else passes for them.
theorem Config.decode_rechunked (config : Config) :
    (∀ type : Ty, (type.Everywhere fun part => ¬ part.SeesChunks) → ∀ item other : Item, item.WellFormed →
      other.WellFormed → item.Rechunked other →
        ∀ value, config.decode type item.bytes = .ok value ↔ config.decode type other.bytes = .ok value) ∧
    ∀ type input rest, config.ReadsAt type input rest → BrokenString rest →
      ∃ e, config.decode type input = .error e := by
  constructor
  · intro type chunkless item other wellFormed wellFormed' rechunked value
    have recut := Recut.item wellFormed wellFormed' rechunked .nil
    rw [List.append_nil, List.append_nil] at recut
    exact ⟨(Ty.seamless chunkless).whole recut, (Ty.seamless chunkless).whole recut.symm⟩
  · intro type input rest reads broken
    cases decoded : config.decode type input with
    | error e => exact ⟨e, rfl⟩
    | ok value => exact absurd broken (reads.not_broken decoded)

def Ty.measurement : Ty :=
  .record "Measurement" [⟨"t", .text, none⟩, ⟨"d", .bytes, none⟩, ⟨"u", .enumeration "Unit" [⟨"m", .unit⟩], none⟩]

def Item.measurement (form : List Bytes → StringForm) : Item :=
  ⟨[], .map (.counted .immediate)
    [(⟨[], .text (form [[], [0x74]])⟩, ⟨[], .text (form [[0xc3], [0xa9]])⟩),
     (⟨[], .text (form [[0x64]])⟩, ⟨[], .bytes (form [[1], [2, 3]])⟩),
     (⟨[], .text (form [[0x75]])⟩, ⟨[], .text (form [[0x6d]])⟩)]⟩

def StringForm.ofPieces (pieces : List Bytes) : StringForm := .whole ⟨.one, pieces.flatten⟩

def StringForm.inPieces (pieces : List Bytes) : StringForm := .chunked (pieces.map (Chunk.mk .immediate))

def brokenMeasurement : Bytes := [0xbf, 0x61, 0x78, 0x7f, 0xc1, 0x61, 0x7a, 0xff, 0x7f, 0x41, 0x74, 0xff, 0x00, 0xff]

theorem Config.decode_measurement :
    (Config.decode { ignoreUnknownKeys := true } .measurement (Item.measurement .inPieces).bytes =
      .ok (.record "Measurement" [("t", .text "é"), ("d", .bytes [1, 2, 3]), ("u", .unitVariant "m")])) ∧
    ∃ e, Config.decode { ignoreUnknownKeys := true } .measurement brokenMeasurement = .error e := by
  obtain ⟨alike, fails⟩ := Config.decode_rechunked { ignoreUnknownKeys := true }
  have chunkless : Ty.measurement.Everywhere fun part => ¬ part.SeesChunks := by
    refine .intro id ?_
    simp only [Ty.measurement, Ty.parts, List.map_cons, List.map_nil, List.forall_mem_cons]
    exact ⟨Ty.everywhere_of_leaf id rfl, Ty.everywhere_of_leaf id rfl, Ty.everywhere_of_leaf id rfl,
      List.forall_mem_nil _⟩
  have text (form : StringForm) (fits : ∀ chunk ∈ form.chunks, chunk.head.Fits) :
      (Item.mk [] (.text form)).WellFormed := by
    have formed : (Item.mk [] (.text form)).Formed :=
      Item.formed_of_ordinary (show Major.text ≠ .simple by decide) (List.forall_mem_nil _)
        (StringForm.fits_head fits) fits
    exact formed.wellFormed rfl
  have bytes (form : StringForm) (fits : ∀ chunk ∈ form.chunks, chunk.head.Fits) :
      (Item.mk [] (.bytes form)).WellFormed := by
    have formed : (Item.mk [] (.bytes form)).Formed :=
      Item.formed_of_ordinary (show Major.bytes ≠ .simple by decide) (List.forall_mem_nil _)
        (StringForm.fits_head fits) fits
    exact formed.wellFormed rfl
  have wellFormed (form : List Bytes → StringForm)
      (fits : ∀ pieces, pieces.flatten.length < 24 → ∀ chunk ∈ (form pieces).chunks, chunk.head.Fits) :
      (Item.measurement form).WellFormed := by
    refine .intro (Item.formed_of_ordinary (show Major.map ≠ .simple by decide) (List.forall_mem_nil _) ?_
      (List.forall_mem_nil _)) ?_
    · rintro head ⟨⟩
      exact show 3 < 24 by decide
    simp only [Item.measurement, Item.body_mk, Body.children, flattened_cons, flattened_nil, List.forall_mem_cons]
    refine ⟨text _ (fits _ ?_), text _ (fits _ ?_), text _ (fits _ ?_), bytes _ (fits _ ?_), text _ (fits _ ?_),
      text _ (fits _ ?_), List.forall_mem_nil _⟩ <;> decide
  have whole : (Item.measurement .ofPieces).WellFormed := by
    refine wellFormed _ fun pieces short chunk member => ?_
    rw [List.mem_singleton.mp member]
    exact Nat.lt_trans short (show 24 < 256 by decide)
  have cut : (Item.measurement .inPieces).WellFormed := by
    refine wellFormed _ fun pieces short chunk member => ?_
    obtain ⟨piece, inside, rfl⟩ := List.mem_map.mp member
    exact Nat.lt_of_le_of_lt (List.sublist_flatten_of_mem inside).length_le short
  have decoded : Config.decode { ignoreUnknownKeys := true } .measurement (Item.measurement .ofPieces).bytes =
      .ok (.record "Measurement" [("t", .text "é"), ("d", .bytes [1, 2, 3]), ("u", .unitVariant "m")]) := by
    decide +kernel
  constructor
  · exact (alike _ chunkless _ _ whole cut rfl _).mp decoded
  · have reads : Config.ReadsAt { ignoreUnknownKeys := true } .measurement brokenMeasurement
        [0x7f, 0x41, 0x74, 0xff, 0x00, 0xff] :=
      .key (.further .here .record) rfl rfl .done (.passed rfl rfl rfl rfl rfl rfl .here) rfl
    refine fails _ _ _ reads (@BrokenString.intro [] .text [0x41, 0x74, 0xff, 0x00, 0xff] (List.forall_mem_nil _)
      (.inr rfl) ?_)
    rw [chunked_iff (.inr rfl)]
    rintro ⟨payload, rest, read⟩
    cases read

end TypedCbor
