import TypedCbor.Proofs.Unelided

namespace TypedCbor

-- A value behind options and newtypes, which hand the markers of their field on to it.
inductive Value.Behind (value : Value) : Value → Prop where
  | here : Behind value value
  | some (behind : Behind value outer) : Behind value (.some outer)
  | newtype (behind : Behind value outer) : Behind value (.newtype outer)

-- Of fixed length or with entries: never a byte string, whatever is in it.
def Value.IsStructure : Value → Prop
  | tuple _ | map _ | record .. | variant .. => True
  | _ => False

variable {config : Config}

theorem Value.Behind.encode_eq {value outer : Value} (behind : value.Behind outer) (encoder : Encoder) :
    outer.encode config encoder = value.encode config encoder := by
  induction behind with
  | here => rfl
  | some _ ih | newtype _ ih => exact ih

theorem length_of_mapM {α β : Type} {f : α → Except Error β} {values : List α} {results : List β}
    (found : values.mapM f = .ok results) : results.length = values.length := by
  induction values generalizing results with
  | nil =>
    cases found
    rfl
  | cons value values ih =>
    rw [List.mapM_cons] at found
    obtain ⟨first, -, found⟩ := bind_eq_ok.mp found
    obtain ⟨others, rest, same⟩ := bind_eq_ok.mp found
    cases same
    exact congrArg (· + 1) (ih rest)

theorem arrayAlone_eq_documents (values : List Value) :
    arrayAlone config values =
      (fun parts => config.framed .array values.length parts.flatten) <$> values.mapM config.encode := by
  rw [arrayAlone, mapM_congr fun value _ => (config.encode_eq_alone value).symm]
  cases found : values.mapM config.encode with
  | error e => rfl
  | ok parts => rw [ok_map, ok_map, length_of_mapM found]

theorem Value.alone_seq_asked {items : List Value} {markers : Markers}
    (asked : markers.byteString = true ∨ config.byteStrings = true) :
    (∀ content, items.mapM asByte = Option.some content →
        (Value.seq items).alone config markers = .ok (Wire.bytes content)) ∧
      ((Value.seq items).HoldsOctets → items.mapM asByte = Option.none →
        (Value.seq items).alone config markers = arrayAlone config items) := by
  have mode : (markers.byteString || config.byteStrings) = true := by simpa using asked
  constructor
  · intro content all
    have octets (collected : Bytes) :
        collectedAlone config items collected = .ok (Wire.bytes (collected ++ content)) := by
      induction items generalizing collected content with
      | nil =>
        cases all
        exact congrArg (fun all => Except.ok (Wire.bytes all)) (List.append_nil collected).symm
      | cons item items ih =>
        rw [List.mapM_cons] at all
        obtain ⟨byte, octet, all⟩ := Option.bind_eq_some_iff.mp all
        obtain ⟨others, rest, same⟩ := Option.bind_eq_some_iff.mp all
        cases same
        rw [collectedAlone, octet]
        exact (ih others rest _).trans (by rw [List.append_assoc]; rfl)
    rw [alone_seq, sequenceAlone, if_pos mode]
    exact octets []
  · intro holds mixed
    rw [alone_composed config holds, composed, if_pos mode, mixed]

theorem Value.IsStructure.alone_eq {value : Value} (structured : value.IsStructure) (markers : Markers) :
    value.alone config markers = value.composed config markers := by
  refine alone_of_plain config (fun items same => ?_) markers
  subst same
  exact structured

theorem Value.IsStructure.framed {value : Value} (structured : value.IsStructure) {markers : Markers} {bytes : Bytes}
    (written : value.alone config markers = .ok bytes) :
    ∃ tags major count body, (major = .array ∨ major = .map) ∧
      bytes = Wire.tags tags ++ config.framed major count body := by
  rw [structured.alone_eq] at written
  cases value with
  | tuple items =>
    obtain ⟨parts, -, rfl⟩ := map_eq_ok.mp written
    exact ⟨[], .array, parts.length, parts.flatten, .inl rfl, rfl⟩
  | map entries =>
    obtain ⟨parts, -, rfl⟩ := map_eq_ok.mp written
    exact ⟨[], .map, parts.length, parts.flatten, .inr rfl, rfl⟩
  | variant name content =>
    obtain ⟨inner, -, rfl⟩ := map_eq_ok.mp written
    exact ⟨[], .array, 2, Wire.text name ++ inner, .inl rfl, rfl⟩
  | record name fields =>
    obtain ⟨parts, -, rfl⟩ := map_eq_ok.mp written
    unfold Shape.enclosed
    split
    · exact ⟨_, .array, _, _, .inl rfl, rfl⟩
    · exact ⟨[], .array, _, _, .inl rfl, rfl⟩
    · exact ⟨[], .array, _, _, .inl rfl, rfl⟩
    · exact ⟨[], .map, _, _, .inr rfl, rfl⟩
    · exact ⟨[], .map, _, _, .inr rfl, rfl⟩
  | _ => exact structured.elim

theorem Value.IsStructure.unmarked {value : Value} (structured : value.IsStructure) (markers : Markers) :
    value.alone config markers = value.alone config {} := by
  rw [structured.alone_eq, structured.alone_eq]
  cases value with
  | tuple | map | record | variant => rfl
  | _ => exact structured.elim

-- Where a field or the configuration asks for a byte string, a sequence of octets is one and any other sequence is
-- the array of its elements, each as it is alone. A structure is asked in vain: it is written as if it were not.
theorem Encoder.encode_asked {value outer : Value} (behind : value.Behind outer) {encoder : Encoder}
    (asked : encoder.markers.byteString = true ∨ config.byteStrings = true) :
    (∀ items, value = .seq items →
      (∀ content, items.mapM Value.asByte = some content →
        outer.encode config encoder = .ok (encoder.put (Wire.bytes content))) ∧
      ((Value.seq items).HoldsOctets → items.mapM Value.asByte = none →
        outer.encode config encoder =
          (fun parts => encoder.put (config.framed .array items.length parts.flatten)) <$>
            items.mapM config.encode)) ∧
    (∀ items, value = .tuple items →
      outer.encode config encoder =
        (fun parts => encoder.put (config.framed .array items.length parts.flatten)) <$>
          items.mapM config.encode) ∧
    (value.IsStructure →
      outer.encode config encoder = outer.encode config { encoder with markers := {} } ∧
      ∀ after, outer.encode config encoder = .ok after →
        ∃ tags major count body, (major = .array ∨ major = .map) ∧
          after = encoder.put (Wire.tags tags ++ config.framed major count body)) := by
  have put (encoder : Encoder) : outer.encode config encoder =
      (fun bytes => encoder.put bytes) <$> value.alone config encoder.markers := by
    rw [behind.encode_eq, Encoder.composes]
  have array (items : List Value) : (fun bytes => encoder.put bytes) <$> arrayAlone config items =
      (fun parts => encoder.put (config.framed .array items.length parts.flatten)) <$>
        items.mapM config.encode := by
    rw [arrayAlone_eq_documents]
    cases items.mapM config.encode <;> rfl
  refine ⟨?_, ?_, fun structured => ⟨?_, fun after written => ?_⟩⟩
  · rintro items rfl
    obtain ⟨octets, mixed⟩ := @Value.alone_seq_asked config items encoder.markers asked
    refine ⟨fun content all => ?_, fun holds other => ?_⟩
    · rw [put, octets content all]
      rfl
    · rw [put, mixed holds other, array]
  · rintro items rfl
    have structured : (Value.tuple items).IsStructure := trivial
    rw [put, structured.alone_eq]
    exact array items
  · rw [put, put, structured.unmarked encoder.markers]
    rfl
  · rw [put] at written
    obtain ⟨bytes, made, rfl⟩ := map_eq_ok.mp written
    obtain ⟨tags, major, count, body, kind, rfl⟩ := structured.framed made
    exact ⟨tags, major, count, body, kind, rfl⟩

theorem Encoder.encode_mixed :
    (Value.some (.seq [.int .u8 1, .int .u8 2])).encode Config.readings ⟨[], [], ⟨true, false⟩⟩ =
        .ok ⟨[0x42, 0x01, 0x02], [], {}⟩ ∧
      (Value.seq [.int .u8 1, .seq [.int .u8 2]]).HoldsOctets ∧
      (Value.newtype (.seq [.int .u8 1, .seq [.int .u8 2]])).encode Config.readings ⟨[], [], ⟨true, false⟩⟩ =
        .ok ⟨[0x9f, 0x01, 0x9f, 0x02, 0xff, 0xff], [], {}⟩ ∧
      (Value.some (.tuple [.int .u8 1, .int .u8 2])).encode Config.readings ⟨[], [], ⟨true, false⟩⟩ =
        .ok ⟨[0x9f, 0x01, 0x02, 0xff], [], {}⟩ ∧
      ∃ tags major count body, (major = Major.array ∨ major = Major.map) ∧
        (⟨[0x9f, 0x01, 0x02, 0xff], [], {}⟩ : Encoder) =
          Encoder.put ⟨[], [], ⟨true, false⟩⟩ (Wire.tags tags ++ Config.readings.framed major count body) := by
  let armed : Encoder := ⟨[], [], ⟨true, false⟩⟩
  let octets : Value := .seq [.int .u8 1, .int .u8 2]
  let mixed : Value := .seq [.int .u8 1, .seq [.int .u8 2]]
  let pair : Value := .tuple [.int .u8 1, .int .u8 2]
  have holds : mixed.HoldsOctets := by
    intro n member
    obtain same | ⟨same⟩ := List.mem_cons.mp member
    · cases same
      rfl
    · contradiction
  have ofOctets := @encode_asked Config.readings octets _ (.some .here) armed (.inl rfl)
  have ofMixed := @encode_asked Config.readings mixed _ (.newtype .here) armed (.inl rfl)
  have ofPair := @encode_asked Config.readings pair _ (.some .here) armed (.inl rfl)
  have written := ofPair.2.1 _ rfl
  exact ⟨(ofOctets.1 _ rfl).1 _ rfl, holds, (ofMixed.1 _ rfl).2 holds rfl, written, (ofPair.2.2 trivial).2 _ written⟩

end TypedCbor
