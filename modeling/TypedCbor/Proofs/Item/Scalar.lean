import TypedCbor.Proofs.Encoding
import TypedCbor.Proofs.Ieee
import TypedCbor.Proofs.Item.Denotation

namespace TypedCbor

theorem Bytes.toText?_ofText (text : String) : toText? (ofText text) = some text := by
  have bytes : (⟨(ofText text).toArray⟩ : ByteArray) = text.toByteArray := rfl
  rw [toText?, bytes, String.fromUTF8?, dif_pos text.isValidUTF8]
  rfl

namespace Item

theorem integer_ofWord (n : UInt64) : (ofWord n).body.header.integer = .ok n.toNat :=
  (Head.fits_shortest n.toNat_lt).integer_unsigned

theorem integer_ofSigned (n : Int64) : (ofSigned n).body.header.integer = .ok n.toInt := by
  unfold ofSigned
  split
  · rename_i positive
    rw [integer_ofWord, Int64.toNat_toUInt64_of_le positive, Int64.toInt_eq_toNatClampNeg positive]
  · rename_i negative
    have below : n.toInt < 0 := by
      rw [Int64.le_iff_toInt_le] at negative
      exact Int.not_le.mp negative
    have least : -2 ^ 63 ≤ n.toInt := n.le_toInt
    have complement : (~~~n).toInt = -n.toInt - 1 := by
      rw [Int64.toInt_not, Int.bmod_eq_of_le (by omega) (by omega)]
    have positive : 0 ≤ ~~~n := by
      rw [Int64.le_iff_toInt_le, complement, Int64.toInt_zero]
      omega
    have number := (Head.fits_shortest (~~~n).toUInt64.toNat_lt).integer_negative
    refine number.trans (congrArg Except.ok ?_)
    rw [Int64.toInt_eq_toNatClampNeg positive] at complement
    rw [Head.shortest, Int64.toNat_toUInt64_of_le positive, complement]
    omega

theorem integer_ofWide {n : Int} {item : Item} (found : ofWide n = .ok item) :
    item.body.header.integer = .ok n := by
  unfold ofWide at found
  split at found <;> split at found
  · cases found
    exact (Head.fits_shortest ‹_›).integer_unsigned
  · cases found
  · cases found
    refine (Head.fits_shortest ‹_›).integer_negative.trans (congrArg Except.ok ?_)
    simp only [Head.shortest, Int.negSucc_eq]
    omega
  · cases found

theorem integer_ofInt {kind : IntKind} {n : Int} {item : Item} (held : kind.holds n = true)
    (found : ofInt kind n = .ok item) : item.body.header.integer = .ok n := by
  obtain ⟨least, most⟩ : kind.low ≤ n ∧ n < kind.high := by simpa [IntKind.holds] using held
  cases kind with
  | i8 | i16 | i32 | i64 =>
    cases found
    simp only [IntKind.low, IntKind.high, IntKind.isSigned, IntKind.width, if_true] at least most
    refine (integer_ofSigned _).trans (congrArg Except.ok (Int64.toInt_ofInt_of_le ?_ ?_)) <;> omega
  | u8 | u16 | u32 | u64 =>
    cases found
    simp only [IntKind.low, IntKind.high, IntKind.isSigned, IntKind.width, Bool.false_eq_true,
      if_false] at least most
    have small : n.toNat < UInt64.size := by
      rw [UInt64.size]
      omega
    refine (integer_ofWord _).trans (congrArg Except.ok ?_)
    rw [UInt64.toNat_ofNat_of_lt' small]
    omega
  | i128 | u128 => exact integer_ofWide found

theorem boolean_ofBool (value : Bool) : (ofBool value).body.header.boolean = .ok value := by
  cases value <;> rfl

theorem float_simple {width : Width} {n : Nat} (info : Nat) (known : width.info n = info) (small : info < 32) :
    (simple width n).body.header.float =
      if info = halfInfo then .ok (Ieee.doubleOfHalf (UInt64.ofNat n).toUInt16)
      else if info = singleInfo then .ok (Ieee.doubleOfSingle (UInt64.ofNat n).toUInt32)
      else if info = doubleInfo then .ok (UInt64.ofNat n)
      else .error ((simple width n).body.header.unexpected "float") := by
  have initial : (simple width n).body.header.initial = Major.simple.initial info := by
    rw [← known]
    rfl
  have major : (simple width n).body.header.major = .simple := by
    rw [Header.major, initial, Major.ofInitial_initial _ small]
  have same : (simple width n).body.header.info = info := by
    rw [Header.info, initial, Major.initial_info _ small]
  have argument : (simple width n).body.header.argument = .value (UInt64.ofNat n) := rfl
  simp only [Header.float, major, argument, same]

theorem float_half (bits : UInt16) :
    (simple .two bits.toNat).body.header.float = .ok (Ieee.doubleOfHalf bits) := by
  rw [float_simple halfInfo rfl (by decide), if_pos rfl, UInt64.toUInt16_ofNat', UInt16.ofNat_toNat]

theorem float_single (bits : UInt32) :
    (simple .four bits.toNat).body.header.float = .ok (Ieee.doubleOfSingle bits) := by
  rw [float_simple singleInfo rfl (by decide), if_neg (by decide), if_pos rfl, UInt64.toUInt32_ofNat',
    UInt32.ofNat_toNat]

theorem float_double (bits : UInt64) :
    (simple .eight bits.toNat).body.header.float = .ok bits := by
  rw [float_simple doubleInfo rfl (by decide), if_neg (by decide), if_neg (by decide), if_pos rfl,
    UInt64.ofNat_toNat]

theorem float_compact (bits : UInt64) : ∃ found, (compact bits).body.header.float = .ok found ∧
    (found = bits ∨ (Ieee.isNaN found = true ∧ Ieee.isNaN bits = true)) := by
  unfold compact
  split
  · rename_i nan
    exact ⟨_, float_half Wire.canonicalNaN, .inr ⟨by decide, nan⟩⟩
  split
  · rename_i half
    exact ⟨_, float_half _, .inl half⟩
  split
  · rename_i single
    exact ⟨_, float_single _, .inl single⟩
  · exact ⟨_, float_double bits, .inl rfl⟩

theorem float_ofDouble (form : Wire.FloatForm) (bits : UInt64) :
    ∃ found, (ofDouble form bits).body.header.float = .ok found ∧
      (found = bits ∨ (Ieee.isNaN found = true ∧ Ieee.isNaN bits = true)) := by
  cases form with
  | fixed => exact ⟨bits, float_double bits, .inl rfl⟩
  | shortest => exact float_compact bits

theorem float_ofSingle (form : Wire.FloatForm) (bits : UInt32) :
    ∃ found, (ofSingle form bits).body.header.float = .ok found ∧
      (Ieee.singleOfDouble found = bits ∨
        (Ieee.single.isNaN (Ieee.singleOfDouble found).toNat = true ∧ Ieee.single.isNaN bits.toNat = true)) := by
  have widened : ∃ found, (ofSingle form bits).body.header.float = .ok found ∧
      (found = Ieee.doubleOfSingle bits ∨
        (Ieee.isNaN found = true ∧ Ieee.isNaN (Ieee.doubleOfSingle bits) = true)) := by
    cases form with
    | fixed => exact ⟨_, float_single bits, .inl rfl⟩
    | shortest => exact float_compact _
  rcases widened with ⟨found, read, same⟩
  refine ⟨found, read, ?_⟩
  rw [Ieee.isNaN_doubleOfSingle] at same
  by_cases nan : Ieee.single.isNaN bits.toNat = true
  · have still : Ieee.isNaN found = true := by
      rcases same with rfl | ⟨still, -⟩
      · rwa [Ieee.isNaN_doubleOfSingle]
      · exact still
    exact .inr ⟨Ieee.isNaN_singleOfDouble still, nan⟩
  · rcases same with rfl | ⟨-, nan'⟩
    · exact .inl (Ieee.singleOfDouble_doubleOfSingle (by simpa using nan))
    · exact absurd nan' nan

end Item
end TypedCbor
