import TypedCbor.Proofs.Places.Loops

namespace TypedCbor

open Decoder

section
variable {config : Config}

def closed (inside : DecodeM (α × OpenStructure)) : DecodeM α := do
  let (a, s) ← inside
  endStructure s
  return a

theorem ResumesAt.closed {inside : DecodeM (α × OpenStructure)} {decoder inner : Decoder} {part : DecodeM β}
    (resumes : ResumesAt inside decoder part inner) : ResumesAt (closed inside) decoder part inner :=
  resumes.andThen _

theorem header_of_begun {shape : Shape} {s : OpenStructure} {decoder after : Decoder}
    (begun : outcome (beginStructure config shape) decoder = .ok (s, after)) :
    ∃ header own, outcome (readHeader config) decoder = .ok ((header, own), after) ∧
      opened config shape header own = .ok s := by
  obtain ⟨⟨⟨header, own⟩, between⟩, read, found⟩ := bind_eq_ok.mp (outcome_bind .. ▸ begun)
  obtain ⟨s', same, kept⟩ := map_eq_ok.mp (outcome_ofExcept .. ▸ found)
  cases kept
  exact ⟨header, own, read, same⟩

theorem eq_of_begun {shape : Shape} {s : OpenStructure} {decoder after : Decoder}
    (begun : outcome (beginStructure config shape) decoder = .ok (s, after)) :
    ∃ remaining, s = ⟨shape, remaining, 0⟩ := by
  obtain ⟨header, own, -, opens⟩ := header_of_begun begun
  exact ⟨_, (eq_of_opened opens).2⟩

theorem enclosed_of_begun {shape : Shape} {s : OpenStructure} {decoder after : Decoder}
    (begun : outcome (beginStructure config shape) decoder = .ok (s, after))
    (inside : OpenStructure → DecodeM (α × OpenStructure)) :
    outcome (readHeader config >>= enclosed config shape inside) decoder = outcome (closed (inside s)) after := by
  obtain ⟨header, own, read, same⟩ := header_of_begun begun
  rw [outcome_bind, read, ok_bind, enclosed, outcome_bind, outcome_ofExcept, same]
  rfl

theorem sequence_of_begun {s : OpenStructure} {decoder after : Decoder}
    (begun : outcome (beginStructure config .list) decoder = .ok (s, after))
    (ofBytes : Bytes → Except Error (List Value))
    (inside : OpenStructure → DecodeM (List Value × OpenStructure)) :
    outcome (readSequence config ofBytes inside) decoder = outcome (closed (inside s)) after := by
  obtain ⟨header, own, read, same⟩ := header_of_begun begun
  obtain ⟨major, -⟩ := eq_of_opened same
  have other : header.major ≠ .bytes := by
    rw [major]
    decide
  rw [readSequence_eq, outcome_bind, read, ok_bind]
  dsimp only
  rw [if_neg other, enclosed, outcome_bind, outcome_ofExcept, same]
  rfl

theorem record_of_begun {name expected : String} {fields : List (Field Ty)} {s : OpenStructure}
    {decoder after : Decoder}
    (begun : outcome (beginStructure config (config.recordShape name fields)) decoder = .ok (s, after)) :
    outcome (readRecord config name expected (fieldReaders config fields)) decoder =
      outcome (Value.record name <$> closed
        (if (config.recordShape name fields).isArrayFramed then
          takeFields config (withElements expected fields.length) 0 (fieldReaders config fields) s
        else placeFields config (fieldReaders config fields) [] s)) after := by
  rw [readRecord_eq, map_name_fieldReaders, length_fieldReaders, ← map_bind, outcome_map]
  change _ <$> outcome (readHeader config >>= enclosed config (config.recordShape name fields) _) decoder = _
  rw [enclosed_of_begun begun, outcome_map]
  rw [show config.shape name .keyed (fields.map Field.name) = config.recordShape name fields from rfl]
  split <;> rfl

theorem resumes_element {target : Target} {shape : Shape} {decoder decoder₁ decoder₂ inner : Decoder}
    {s s₁ s₂ : OpenStructure} {others : List Nat} {index : Nat} {type : Ty}
    (framed : target.frame config = some shape)
    (begun : outcome (beginStructure config shape) decoder = .ok (s, decoder₁))
    (walk : Walk config (target.part config) [] s decoder₁ others s₁ decoder₂)
    (announced : outcome (nextElement config s₁) decoder₂ = .ok ((some index, s₂), inner))
    (known : target.part config others index = some type) :
    ResumesAt (target.read config) decoder (type.read config) inner := by
  have reaches := ((delimits_beginStructure shape).takes (.refl config)).reaches begun
  obtain ⟨_, rfl⟩ := eq_of_begun begun
  cases target with
  | tuple expected types =>
    cases framed
    have loop := (unrolls_fill config expected types).resumes walk announced known ⟨rfl, rfl⟩
    refine reaches.resumesAt (fun start after begun => ?_) (loop.closed.map Value.tuple)
    rw [Target.read, outcome_map, readTuple, sequence_of_begun begun, outcome_map]
    rfl
  | record name expected fields =>
    cases framed
    by_cases array : (config.recordShape name fields).isArrayFramed = true
    · rw [Target.part_of_array array] at walk known
      have loop := (unrolls_places config (withElements expected fields.length) fields array).resumes walk
        announced known ⟨rfl, rfl⟩
      refine reaches.resumesAt (fun start after begun => ?_) (loop.closed.map (Value.record name))
      rw [Target.read, record_of_begun begun, if_pos array]
      rfl
    · have loop := (unrolls_fields config name expected fields (Bool.eq_false_iff.mpr array)).resumes walk
        announced known (x := []) ⟨rfl, fun _ _ => rfl⟩
      refine reaches.resumesAt (fun start after begun => ?_) (loop.closed.map (Value.record name))
      rw [Target.read, record_of_begun begun, if_neg array]
  | value type =>
    cases type with
    | seq type =>
      cases framed
      have loop := (unrolls_elements config type).resumes walk announced known (x := ()) trivial
      refine reaches.resumesAt (fun start after begun => ?_) (loop.closed.map Value.seq)
      rw [Target.read, Ty.read, outcome_map, readMany, sequence_of_begun begun, outcome_map]
    | map keys values =>
      cases framed
      have loop := (unrolls_entries config keys values).resumes walk announced known (x := none)
        ⟨rfl, rfl⟩
      refine reaches.resumesAt (fun start after begun => ?_) (loop.closed.map Value.map)
      rw [Target.read, Ty.read, outcome_map, readMap_eq, enclosed_of_begun begun, outcome_map]
      rfl
    | _ => cases framed

theorem variantReaders_eq_map (config : Config) (parent : String) (variants : List (Variant Ty)) :
    variantReaders config parent variants =
      variants.map fun variant => ⟨variant.name, contentReader config parent variant.name variant.content⟩ := by
  induction variants with
  | nil => rfl
  | cons variant variants ih => rw [variantReaders, ih, List.map_cons]

theorem find?_variantReaders (config : Config) (parent text : String) (variants : List (Variant Ty)) :
    (variantReaders config parent variants).find? (·.name == text) =
      (variants.find? (·.name == text)).map fun variant =>
        ⟨variant.name, contentReader config parent variant.name variant.content⟩ := by
  rw [variantReaders_eq_map, List.find?_map]
  rfl

theorem contentOf_of_known {parent name text : String} {variants : List (Variant Ty)} {content : Content Ty}
    {target : Target} (known : variants.find? (·.name == text) = some ⟨name, content⟩)
    (carries : content.target parent name = some target) :
    ∃ form, contentOf (variantReaders config parent variants) text = .ok (.content form (target.read config)) := by
  rw [contentOf, find?_variantReaders, known]
  cases content with
  | unit => cases carries
  | newtype | tuple | record =>
    cases carries
    exact ⟨_, rfl⟩

theorem variant_of_begun {s : OpenStructure} {decoder after : Decoder}
    (begun : outcome (beginPair config) decoder = .ok ((.array, s), after))
    (variants : List (VariantReader (DecodeM Value))) :
    outcome (readVariant config variants) decoder = outcome (closed (pairInside config variants s)) after := by
  obtain ⟨⟨_, ahead⟩, read, found⟩ := bind_eq_ok.mp (outcome_bind .. ▸ begun)
  obtain ⟨⟨major, looked⟩, peeked, found⟩ := bind_eq_ok.mp (outcome_bind .. ▸ found)
  obtain ⟨⟨opening, first⟩, started, same⟩ := bind_eq_ok.mp (outcome_bind .. ▸ found)
  cases same
  rw [readVariant, outcome_bind, read, ok_bind, outcome_bind, peeked, ok_bind]
  dsimp only
  rw [readVariantPair_eq, enclosed_of_begun started]

theorem resumes_variant {parent name : String} {variants : List (Variant Ty)} {content : Content Ty}
    {target : Target} {decoder decoder₁ decoder₂ decoder₃ inner : Decoder} {s s₁ s₂ : OpenStructure}
    {first second : Nat} {payload : TextPayload}
    (begun : outcome (beginPair config) decoder = .ok ((.array, s), decoder₁))
    (firstAnnounced : outcome (nextElement config s) decoder₁ = .ok ((some first, s₁), decoder₂))
    (named : outcome (readText config) decoder₂ = .ok (payload, decoder₃))
    (known : variants.find? (·.name == payload.text) = some ⟨name, content⟩)
    (secondAnnounced : outcome (nextElement config s₁) decoder₃ = .ok ((some second, s₂), inner))
    (carries : content.target parent name = some target) :
    ResumesAt (readVariant config (variantReaders config parent variants)) decoder (target.read config) inner := by
  obtain ⟨form, carried⟩ := @contentOf_of_known config _ _ _ _ _ _ known carries
  have behind : ResumesAt (behindName config s₁ payload.text (.content form (target.read config))) decoder₃
      (target.read config) inner :=
    (reaches_nextElement secondAnnounced).bind ((resumesAt_here _ inner).andThen _)
  have inside : ResumesAt (pairInside config (variantReaders config parent variants) s) decoder₁
      (target.read config) inner := by
    rw [pairInside_eq]
    refine (reaches_nextElement firstAnnounced).bind (Reaches.bind
      ((delimits_readText.takes (.refl config)).reaches named) ?_)
    rw [carried]
    exact behind
  exact ((takes_beginPair (.refl config)).reaches begun).resumesAt
    (fun start after begun => variant_of_begun begun _) inside.closed

theorem Enters.resumes {target target' : Target} {decoder inner : Decoder}
    (enters : Enters config target decoder target' inner) :
    ResumesAt (target.read config) decoder (target'.read config) inner := by
  cases enters with
  | tuple | tupleStruct | record | delayed => exact resumesAt_here _ _
  | newtype => exact (resumesAt_here _ _).map _
  | option present =>
    refine (reaches_readNull present).bind ?_
    exact (resumesAt_here _ _).andThen _
  | variant begun firstAnnounced named known secondAnnounced carries =>
    exact resumes_variant begun firstAnnounced named known secondAnnounced carries
  | element framed begun walk announced known => exact resumes_element framed begun walk announced known

theorem Visits.resumes {target target' : Target} {decoder inner : Decoder}
    (visits : Visits config target decoder target' inner) :
    ResumesAt (target.read config) decoder (target'.read config) inner := by
  induction visits with
  | here => exact resumesAt_here _ _
  | further _ enters ih => exact ih.trans enters.resumes

-- A document with other bytes at a place is decoded like it up to there, and then goes by what is read of them.
theorem Config.Visits.decode_eq {type : Ty} {input : Bytes} {target : Target} {inner : Decoder}
    (visits : config.Visits type input target inner) :
    ∃ (front : Bytes) (resume : Value × Decoder → Except Error Value), input = front ++ inner.rest ∧
      ∀ rest, Resembles inner.rest rest →
        config.decode type (front ++ rest) = outcome (target.read config) (inner.before rest) >>= resume := by
  obtain ⟨front, resume, split, law⟩ := TypedCbor.Visits.resumes visits
  refine ⟨front, fun p => resume p >>= fun q => Prod.fst <$> outcome (do finish; return q.1) q.2, split,
    fun rest alike => ?_⟩
  have ran : outcome (type.read config) ⟨front ++ rest, none, []⟩ =
      outcome (target.read config) (inner.before rest) >>= resume := law rest alike
  rw [Config.decode, whole_eq, outcome_bind, ran, bind_assoc, map_bind]
  congr 1
  funext p
  rw [map_bind]

theorem Config.Visits.accepted {type : Ty} {input : Bytes} {target : Target} {inner : Decoder} {value : Value}
    (visits : config.Visits type input target inner) (accepted : config.decode type input = .ok value) :
    ∃ part after, outcome (target.read config) inner = .ok (part, after) := by
  obtain ⟨front, resume, rfl, law⟩ := visits.decode_eq
  rw [law _ (.refl _)] at accepted
  obtain ⟨⟨part, after⟩, read, -⟩ := bind_eq_ok.mp accepted
  exact ⟨part, after, read⟩

end
end TypedCbor
