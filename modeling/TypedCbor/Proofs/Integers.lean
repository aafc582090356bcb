import TypedCbor.Proofs.Bignums
import TypedCbor.Proofs.DeclaredDefaults
import TypedCbor.Proofs.Prefixes

namespace TypedCbor

namespace Wire

def argument : Int → Nat
  | .ofNat m => m
  | .negSucc m => m

def majorOf : Int → Major
  | .ofNat _ => .unsigned
  | .negSucc _ => .negative

def integer (n : Int) : Bytes := head (majorOf n) (UInt64.ofNat (argument n))

-- The same as a machine does it, in two's complement of 128 bits; only then it is seen whether a word is enough.
def wideInBits (bits : BitVec 128) : Except Error Bytes :=
  let distance := if bits.msb then -1 - bits else bits
  if distance.toNat < UInt64.size then
    .ok (head (if bits.msb then .negative else .unsigned) (UInt64.ofNat distance.toNat))
  else .error (.unsupported (.bignum bits.toInt))

end Wire

def IntKind.wideInBits (kind : IntKind) (bits : BitVec 128) : Except Error Bytes :=
  if !kind.isSigned && bits.msb then .error (.unsupported (.bignum bits.toNat)) else Wire.wideInBits bits

def Header.integerInBits (header : Header) : Except Error (BitVec 128) :=
  match header.major, header.argument with
  | .unsigned, .value n => .ok (n.toBitVec.setWidth 128)
  | .negative, .value n => .ok (-1 - n.toBitVec.setWidth 128)
  | _, _ => .error (header.unexpected "integer")

def Item.integer (tags : List Head) (width : Width) : Int → Item
  | .ofNat m => ⟨tags, .unsigned ⟨width, m⟩⟩
  | .negSucc m => ⟨tags, .negative ⟨width, m⟩⟩

theorem isBignum_iff {n : Int} : IsBignum n ↔ UInt64.size ≤ Wire.argument n := by
  unfold IsBignum
  cases n <;> simp only [Wire.argument, UInt64.size, Int.ofNat_eq_natCast] <;> omega

namespace Wire

theorem signed_ofInt {n : Int} (least : -2 ^ 63 ≤ n) (most : n < 2 ^ 63) : signed (Int64.ofInt n) = integer n := by
  have same : (Int64.ofInt n).toInt = n := Int64.toInt_ofInt_of_le least most
  cases n with
  | ofNat m => exact signed_of_nonneg same
  | negSucc m => exact signed_of_neg same

theorem wide_eq (n : Int) :
    wide n = if IsBignum n then .error (.unsupported (.bignum n)) else .ok (integer n) := by
  by_cases large : IsBignum n
  · rw [if_pos large]
    rw [isBignum_iff] at large
    cases n <;> exact if_neg (Nat.not_lt.mpr large)
  · rw [if_neg large]
    rw [isBignum_iff, Nat.not_le] at large
    cases n <;> exact if_pos large

end Wire

namespace IntKind

variable {kind : IntKind} {n : Int}

theorem holds_iff (kind : IntKind) (n : Int) : kind.holds n = true ↔ kind.low ≤ n ∧ n < kind.high := by
  simp [holds]

theorem item_eq (held : kind.holds n = true) :
    kind.item n = if IsBignum n then .error (.unsupported (.bignum n)) else .ok (Wire.integer n) := by
  obtain ⟨least, most⟩ := (holds_iff kind n).mp held
  cases kind with
  | i8 | i16 | i32 | i64 =>
    simp only [low, high, isSigned, width, if_true] at least most
    rw [if_neg (by unfold IsBignum; omega), ← Wire.signed_ofInt (by omega) (by omega)]
    rfl
  | u8 | u16 | u32 | u64 =>
    simp only [low, high, isSigned, width, Bool.false_eq_true, if_false] at least most
    obtain ⟨m, rfl⟩ := Int.eq_ofNat_of_zero_le least
    rw [if_neg (by unfold IsBignum; omega)]
    rfl
  | i128 | u128 => exact Wire.wide_eq n

end IntKind

theorem Wire.distance_inBits (bits : BitVec 128) :
    (if bits.msb then -1 - bits else bits).toNat = argument bits.toInt ∧
      (if bits.msb then Major.negative else .unsigned) = majorOf bits.toInt := by
  cases sign : bits.msb with
  | false =>
    rw [BitVec.toInt_eq_toNat_of_msb sign]
    exact ⟨rfl, rfl⟩
  | true =>
    have half : 2 ^ 127 ≤ bits.toNat := BitVec.le_toNat_of_msb_true sign
    have below : bits.toNat < 2 ^ 128 := bits.isLt
    have number : bits.toInt = Int.negSucc (2 ^ 128 - 1 - bits.toNat) := by
      rw [BitVec.toInt_eq_msb_cond, sign, if_pos rfl]
      omega
    have ones : (-1 : BitVec 128) = BitVec.allOnes 128 := rfl
    rw [number, ones, BitVec.allOnes_sub_eq_not]
    exact ⟨BitVec.toNat_not, rfl⟩

theorem Wire.wide_toInt (bits : BitVec 128) : wide bits.toInt = wideInBits bits := by
  obtain ⟨distance, major⟩ := distance_inBits bits
  rw [wide_eq, wideInBits, distance, major, ← ite_not]
  exact if_congr (by rw [isBignum_iff, Nat.not_le]) rfl rfl

theorem IntKind.item_inBits {kind : IntKind} {n : Int} (wide : kind.width = 128) (held : kind.holds n = true) :
    kind.item n = kind.wideInBits (BitVec.ofInt 128 n) := by
  obtain ⟨least, most⟩ := (holds_iff kind n).mp held
  cases kind with
  | i8 | i16 | i32 | i64 | u8 | u16 | u32 | u64 => exact absurd wide (by decide)
  | i128 =>
    simp only [low, high, isSigned, IntKind.width, if_true] at least most
    have same : (BitVec.ofInt 128 n).toInt = n := BitVec.toInt_ofInt_eq_self (by decide) (by omega) (by omega)
    exact (congrArg Wire.wide same.symm).trans (Wire.wide_toInt _)
  | u128 =>
    simp only [low, high, isSigned, IntKind.width, Bool.false_eq_true, if_false] at least most
    obtain ⟨m, rfl⟩ := Int.eq_ofNat_of_zero_le least
    have number : (BitVec.ofInt 128 m).toNat = m := by
      rw [BitVec.ofInt_natCast, BitVec.toNat_ofNat]
      omega
    cases sign : (BitVec.ofInt 128 m).msb with
    | false =>
      have same : (BitVec.ofInt 128 m).toInt = m := (BitVec.toInt_eq_toNat_of_msb sign).trans (congrArg _ number)
      rw [wideInBits, sign]
      exact (congrArg Wire.wide same.symm).trans (Wire.wide_toInt _)
    | true =>
      have half : 2 ^ 127 ≤ m := number ▸ BitVec.le_toNat_of_msb_true sign
      rw [wideInBits, sign, number]
      exact (Wire.wide_eq m).trans (if_pos (.inr (by omega)))

theorem Header.integer_inBits (header : Header) : header.integer = BitVec.toInt <$> header.integerInBits := by
  have word (n : UInt64) : (n.toBitVec.setWidth 128).toNat = n.toNat := by
    rw [BitVec.toNat_setWidth, UInt64.toNat_toBitVec]
    exact Nat.mod_eq_of_lt (Nat.lt_trans n.toNat_lt (by decide))
  rcases known : header.argument with n | _
  · have small : n.toNat < 2 ^ 64 := n.toNat_lt
    have ones : (-1 : BitVec 128) = BitVec.allOnes 128 := rfl
    rw [integer, integerInBits, known]
    cases header.major with
    | unsigned => rw [ok_map, BitVec.toInt_eq_toNat_cond, word, if_pos (by omega)]
    | negative =>
      rw [ok_map, ones, BitVec.allOnes_sub_eq_not, BitVec.toInt_eq_toNat_cond, BitVec.toNat_not, word,
        if_neg (by omega)]
      exact congrArg Except.ok (show (-1 : Int) - n.toNat = _ by omega)
    | bytes | text | array | map | tag | simple => rfl
  · rw [integer, integerInBits, known]
    cases header.major <;> rfl

namespace Item

variable {tags : List Head} {width : Width} {n : Int}

theorem formed_integer (fit : ∀ tag ∈ tags, tag.Fits) (room : Wire.argument n < width.limit) :
    (integer tags width n).Formed := by
  cases n with
  | ofNat m | negSucc m =>
    refine formed_of_ordinary (by simp [integer, Body.major]) fit ?_ (by simp [integer, Body.chunks])
    rintro _ ⟨⟩
    exact room

theorem header_integer (room : Wire.argument n < width.limit) :
    (integer tags width n).body.header.integer = .ok n := by
  cases n with
  | ofNat m => exact @Head.Fits.integer_unsigned ⟨width, m⟩ room
  | negSucc m =>
    refine (@Head.Fits.integer_negative ⟨width, m⟩ room).trans (congrArg Except.ok ?_)
    change -1 - (m : Int) = Int.negSucc m
    omega

theorem tagNumbers_integer : (integer tags width n).tagNumbers = tags.map Head.number := by
  cases n <;> rfl

theorem bytes_integer_narrowest (small : ¬IsBignum n) :
    (integer [] (.narrowest (Wire.argument n)) n).bytes = Wire.integer n := by
  rw [isBignum_iff, Nat.not_le] at small
  cases n with
  | ofNat m | negSucc m => exact ((Head.made_shortest small).wire _).symm

end Item

section
variable {config : Config} {tags : List Head} {width : Width} {n : Int} {field : Option Element}
  {pending own : List UInt64}

theorem outcome_readInteger (fit : ∀ tag ∈ tags, tag.Fits) (room : Wire.argument n < width.limit)
    (clear : ItemReader.ownTags config field (pending ++ tags.map Head.number) = .ok own) (rest : Bytes) :
    outcome (Decoder.readInteger config) ⟨(Item.integer tags width n).bytes ++ rest, field, pending⟩ =
      .ok (n, ⟨rest, none, []⟩) := by
  rw [Decoder.followsAt_readInteger (Item.formed_integer fit room), Item.tagNumbers_integer]
  simp only [ItemReader.ofHeader, ItemReader.behindTags, clear, ok_bind, Item.header_integer room, ok_map]

theorem outcome_readInt (fit : ∀ tag ∈ tags, tag.Fits) (room : Wire.argument n < width.limit)
    (clear : ItemReader.ownTags config field (pending ++ tags.map Head.number) = .ok own) (rest : Bytes)
    (kind : IntKind) :
    outcome (Decoder.readInt config kind) ⟨(Item.integer tags width n).bytes ++ rest, field, pending⟩ =
      if kind.holds n then .ok (.int kind n, ⟨rest, none, []⟩) else .error .integerOverflow := by
  rw [Decoder.readInt, outcome_bind, outcome_readInteger fit room clear, ok_bind, outcome_ite]
  rfl

theorem outcome_readChar (fit : ∀ tag ∈ tags, tag.Fits) (room : Wire.argument n < width.limit)
    (clear : ItemReader.ownTags config field (pending ++ tags.map Head.number) = .ok own) (rest : Bytes) :
    outcome (Decoder.readChar config) ⟨(Item.integer tags width n).bytes ++ rest, field, pending⟩ =
      if 0 ≤ n ∧ n < 2 ^ 32 then
        if n.toNat.isValidChar then .ok (.char (Char.ofNat n.toNat), ⟨rest, none, []⟩)
        else .error (.unsupported (.notACharacter n.toNat))
      else .error .integerOverflow := by
  have outside : (n < 0 ∨ IntKind.u32.high ≤ n) ↔ ¬(0 ≤ n ∧ n < 2 ^ 32) := by
    rw [not_and_or, Int.not_le, Int.not_lt]
    rfl
  rw [Decoder.readChar, outcome_bind, outcome_readInteger fit room clear, ok_bind]
  simp only [outcome_ite, outside, ite_not, outcome_throw, outcome_pure]

end

theorem exists_char {m : Nat} (valid : m.isValidChar) : ∃ c : Char, c.toNat = m := ⟨Char.ofNatAux m valid, rfl⟩

namespace Config

theorem decode_of_outcome {config : Config} {type : Ty} {input : Bytes} {result : Except Error Value}
    (ran : outcome (type.read config) { rest := input } = (·, ⟨[], none, []⟩) <$> result) :
    config.decode type input = result := by
  cases result with
  | ok value => exact Decoder.whole_of_outcome ran rfl
  | error e => exact Decoder.whole_of_error ran

theorem decode_integer (config : Config) {tags : List Head} {width : Width} {n : Int}
    (fit : ∀ tag ∈ tags, tag.Fits) (room : Wire.argument n < width.limit) (kind : IntKind) :
    config.decode (.int kind) (Item.integer tags width n).bytes =
      if kind.holds n then .ok (.int kind n) else .error .integerOverflow := by
  refine decode_of_outcome ?_
  have clear : ItemReader.ownTags config none ([] ++ tags.map Head.number) = .ok (tags.map Head.number) := rfl
  have read := outcome_readInt fit room clear [] kind
  rw [List.append_nil] at read
  refine read.trans ?_
  split <;> rfl

-- All kinds write an integer as one head of the shortest form, and read it from a head of any width behind tags that
-- are not for the field. A kind that has no room for it says so, whichever kind it was written as. What is done to it
-- in 128 bits comes to the same as if they were unlimited.
theorem carries_integers (config : Config) :
    (∀ (kind : IntKind) (n : Int) (encoder : Encoder), kind.holds n = true →
      (Value.int kind n).encode config encoder =
        if IsBignum n then .error (.unsupported (.bignum n)) else .ok (encoder.put (Wire.integer n))) ∧
    (∀ (c : Char) (encoder : Encoder),
      (Value.char c).encode config encoder = .ok (encoder.put (Wire.integer c.toNat))) ∧
    (∀ n : Int, ¬IsBignum n →
      (Item.integer [] (.narrowest (Wire.argument n)) n).Formed ∧
        (Item.integer [] (.narrowest (Wire.argument n)) n).bytes = Wire.integer n) ∧
    (∀ (tags : List Head) (width : Width) (n : Int),
      (∀ tag ∈ tags, tag.Fits) → Wire.argument n < width.limit →
      ∀ (field : Option Element) (pending own : List UInt64) (rest : Bytes),
        ItemReader.ownTags config field (pending ++ tags.map Head.number) = .ok own →
        let decoder : Decoder := ⟨(Item.integer tags width n).bytes ++ rest, field, pending⟩
        (∀ kind : IntKind, outcome ((Ty.int kind).read config) decoder =
          if kind.holds n then .ok (.int kind n, ⟨rest, none, []⟩) else .error .integerOverflow) ∧
        (∀ c : Char, c.toNat = n → outcome (Ty.char.read config) decoder = .ok (.char c, ⟨rest, none, []⟩)) ∧
        (¬(0 ≤ n ∧ n < 2 ^ 32) → outcome (Ty.char.read config) decoder = .error .integerOverflow) ∧
        (0 ≤ n ∧ n < 2 ^ 32 → (∀ c : Char, c.toNat ≠ n) →
          outcome (Ty.char.read config) decoder = .error (.unsupported (.notACharacter n.toNat)))) ∧
    (∀ (other : Config) (source target : IntKind) (n : Int), source.holds n = true → ¬IsBignum n →
      ∃ output, config.encode (.int source n) = .ok output ∧
        other.decode (.int target) output =
          if target.holds n then .ok (.int target n) else .error .integerOverflow) ∧
    (∀ (kind : IntKind) (n : Int), kind.width = 128 → kind.holds n = true →
      kind.item n = kind.wideInBits (BitVec.ofInt 128 n)) ∧
    ∀ header : Header, header.integer = BitVec.toInt <$> header.integerInBits := by
  have written (kind : IntKind) (n : Int) (encoder : Encoder) (held : kind.holds n = true) :
      (Value.int kind n).encode config encoder =
        if IsBignum n then .error (.unsupported (.bignum n)) else .ok (encoder.put (Wire.integer n)) := by
    rw [Value.encode, IntKind.item_eq held]
    split <;> rfl
  refine ⟨written, fun c encoder => ?_, fun n small => ?_, ?_, ?_, fun _ _ => IntKind.item_inBits,
    Header.integer_inBits⟩
  · have number : c.val.toUInt64 = UInt64.ofNat c.toNat := (UInt64.ofNat_uInt32ToNat c.val).symm
    rw [Value.encode, number]
    rfl
  · have room : Wire.argument n < UInt64.size := by
      rwa [isBignum_iff, Nat.not_le] at small
    exact ⟨Item.formed_integer (by simp) (Width.narrowest_holds room), Item.bytes_integer_narrowest small⟩
  · intro tags width n fit room field pending own rest clear
    have read := outcome_readChar fit room clear rest
    refine ⟨outcome_readInt fit room clear rest, fun c same => ?_, fun outside => ?_, fun inside none => ?_⟩
    · subst same
      have valid : c.toNat.isValidChar := c.valid
      have small : c.toNat < 2 ^ 32 := c.val.toNat_lt
      rw [if_pos (by omega), Int.toNat_natCast, if_pos valid, Char.ofNat_toNat] at read
      exact read
    · exact read.trans (if_neg outside)
    · have invalid : ¬n.toNat.isValidChar := by
        intro valid
        obtain ⟨c, same⟩ := exists_char valid
        exact none c (by omega)
      rw [if_pos inside, if_neg invalid] at read
      exact read
  · intro other source target n held small
    refine ⟨Wire.integer n, ?_, ?_⟩
    · rw [Config.encode, written source n {} held, if_neg small]
      rfl
    · have room : Wire.argument n < UInt64.size := by
        rwa [isBignum_iff, Nat.not_le] at small
      rw [← Item.bytes_integer_narrowest small]
      exact other.decode_integer (by simp) (Width.narrowest_holds room) target

theorem carries_boundaries :
    (Value.int .i64 (-2 ^ 63)).encode (.standard .fixed) {} =
      .ok { output := [0x3b, 0x7f, 0xff, 0xff, 0xff, 0xff, 0xff, 0xff, 0xff] } ∧
    (Value.int .i128 (-2 ^ 127)).encode (.standard .fixed) {} = .error (.unsupported (.bignum (-2 ^ 127))) ∧
    (Value.int .u128 (2 ^ 128 - 1)).encode (.standard .fixed) {} = .error (.unsupported (.bignum (2 ^ 128 - 1))) ∧
    (∀ kind : IntKind, outcome ((Ty.int kind).read (.standard .fixed))
        { rest := [0xc1, 0x3b, 0xff, 0xff, 0xff, 0xff, 0xff, 0xff, 0xff, 0xff, 0x00] } =
      if kind = .i128 then .ok (.int .i128 (-2 ^ 64), { rest := [0x00] }) else .error .integerOverflow) ∧
    outcome (Ty.char.read (.standard .fixed)) { rest := [0x1a, 0x00, 0x00, 0xd8, 0x00] } =
      .error (.unsupported (.notACharacter 0xd800)) ∧
    (Config.standard .shortest).decode (.int .u8) [0x18, 0xff] = .ok (.int .u8 255) ∧
    IntKind.i128.item (-2 ^ 127) = IntKind.i128.wideInBits (BitVec.ofInt 128 (-2 ^ 127)) := by
  obtain ⟨written, -, -, read, across, inBits, -⟩ := carries_integers (.standard .fixed)
  obtain ⟨ints, -⟩ := read [⟨.immediate, 1⟩] .eight (-2 ^ 64) (by decide) (by decide) none [] _ [0x00] rfl
  obtain ⟨-, -, -, noCharacter⟩ := read [] .four 0xd800 (by decide) (by decide) none [] _ [] rfl
  obtain ⟨output, wrote, found⟩ := across (.standard .shortest) .i16 .u8 255 (by decide) (by decide)
  have surrogate (c : Char) : (c.toNat : Int) ≠ 0xd800 := by
    have valid := c.valid
    change c.toNat.isValidChar at valid
    unfold Nat.isValidChar at valid
    omega
  cases wrote
  exact ⟨written .i64 _ {} (by decide), written .i128 _ {} (by decide), written .u128 _ {} (by decide),
    fun kind => (ints kind).trans (by cases kind <;> rfl), noCharacter (by decide) surrogate, found,
    inBits .i128 _ rfl (by decide)⟩

end Config
end TypedCbor
