import TypedCbor.Proofs.Prefixes

namespace TypedCbor

-- A configuration that checks less refuses nothing of what a stricter one takes, and finds the same in it.
theorem Config.decode_relaxed {lenient strict : Config} (relaxes : lenient.Relaxes strict) {type : Ty}
    {input : Bytes} {value : Value} (accepted : strict.decode type input = .ok value) :
    lenient.decode type input = .ok value :=
  Decoder.whole_relaxed (type.delimits.takes relaxes) accepted

def Config.carelessParcels : Config :=
  { Config.parcels with
    ignoreUnknownKeys := true, verifyKeyTags := false, verifyValueTags := false, preferLabels := false,
    encodeDefaults := true, definiteLengths := true, byteStrings := true }

theorem Config.decode_careless_parcel :
    Config.carelessParcels.Relaxes Config.parcels ∧
      Config.parcels.decode .parcel [0xa2, 0xc5, 0x01, 0xd8, 0x18, 0x42, 0x81, 0x00, 0x02, 0xf6] =
        .ok .parcel ∧
      Config.carelessParcels.decode .parcel [0xa2, 0xc5, 0x01, 0xd8, 0x18, 0x42, 0x81, 0x00, 0x02, 0xf6] =
        .ok .parcel := by
  have relaxes : Config.carelessParcels.Relaxes Config.parcels :=
    ⟨fun _ => rfl, Bool.noConfusion, Bool.noConfusion, fun _ => rfl⟩
  have accepted : Config.parcels.decode .parcel
      [0xa2, 0xc5, 0x01, 0xd8, 0x18, 0x42, 0x81, 0x00, 0x02, 0xf6] = .ok .parcel := by rfl
  exact ⟨relaxes, accepted, Config.decode_relaxed relaxes accepted⟩

end TypedCbor
