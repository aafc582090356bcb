import TypedCbor.Proofs.Grammar
import TypedCbor.Proofs.Indexed
import TypedCbor.Proofs.Item.Wire

namespace TypedCbor

theorem Major.initial_inBits (major : Major) {info : Nat} (small : info < 32) :
    major.initial info = (UInt8.ofNat major.code <<< 5) ||| UInt8.ofNat info := by
  have all : ∀ info < 32, major.initial info = (UInt8.ofNat major.code <<< 5) ||| UInt8.ofNat info := by
    cases major <;> decide
  exact all info small

theorem Major.ofInitial_inBits (initial : UInt8) : ofInitial initial = ofCode (initial >>> 5).toNat := by
  rw [ofInitial, UInt8.toNat_shiftRight]
  congr 1
  exact (Nat.shiftRight_eq_div_pow _ 5).symm

theorem Header.info_inBits (header : Header) : header.info = (header.initial &&& 0x1f).toNat := by
  rw [info, UInt8.toNat_and]
  exact (Nat.and_two_pow_sub_one_eq_mod _ 5).symm

theorem Head.length_bytes (major : Major) (head : Head) : (head.bytes major).length = head.width.size + 1 := by
  rw [bytes, List.length_cons, Bytes.length_bigEndian]

theorem Wire.length_head_le {head : Head} (fits : head.Fits) (major : Major) :
    (Wire.head major head.number).length ≤ (head.bytes major).length := by
  rw [head_eq, fits.toNat_number, Head.length_bytes, Head.length_bytes]
  exact Nat.succ_le_succ (Width.narrowest_least fits)

namespace Cursor

def argumentSize (info : Nat) : Nat := if info < 24 then 0 else 2 ^ (info - 24)

-- An initial byte, and what is behind it, that are accepted.
def OpensHead (initial : UInt8) (behind : Bytes) : Prop :=
  initial.toNat % 32 ≤ 27 ∧ argumentSize (initial.toNat % 32) ≤ behind.length ∨
    initial.toNat % 32 = 31 ∧ Major.ofInitial initial ∈ [.bytes, .text, .array, .map, .simple]

instance (initial : UInt8) (behind : Bytes) : Decidable (OpensHead initial behind) :=
  inferInstanceAs (Decidable (_ ∧ _ ∨ _ ∧ _))

theorem hasIndefinite_iff (major : Major) :
    major.hasIndefinite = true ↔ major ∈ [Major.bytes, .text, .array, .map, .simple] := by
  cases major <;> decide

theorem accepts_word (width : Nat) (input : Bytes) :
    (∃ argument rest, outcome (word width) input = .ok (argument, rest)) ↔ width ≤ input.length := by
  constructor
  · rintro ⟨argument, rest, read⟩
    obtain ⟨⟨taken, after⟩, took, -⟩ := bind_eq_ok.mp (outcome_bind .. ▸ read)
    obtain ⟨rfl, rfl⟩ := eq_of_take took
    rw [List.length_append]
    exact Nat.le_add_right _ _
  · intro enough
    have taken := outcome_take (input.take width) (input.drop width)
    rw [List.take_append_drop, List.length_take, Nat.min_eq_left enough] at taken
    rw [word, outcome_bind, taken]
    exact ⟨_, _, rfl⟩

theorem accepts_readArgument (initial : UInt8) (behind : Bytes) :
    (∃ argument rest, outcome (readArgument initial) behind = .ok (argument, rest)) ↔ OpensHead initial behind := by
  rw [OpensHead, ← hasIndefinite_iff]
  unfold readArgument
  dsimp only
  generalize initial.toNat % 32 = info
  by_cases small : info < 24
  · rw [if_pos small, argumentSize, if_pos small]
    exact iff_of_true ⟨_, _, rfl⟩ (.inl ⟨by omega, Nat.zero_le _⟩)
  · rw [if_neg small, argumentSize, if_neg small]
    split
    · simp [accepts_word]
    · simp [accepts_word]
    · simp [accepts_word]
    · simp [accepts_word]
    · cases (Major.ofInitial initial).hasIndefinite with
      | true => exact iff_of_true ⟨_, _, rfl⟩ (.inr ⟨rfl, rfl⟩)
      | false => exact iff_of_false (by rintro ⟨_, _, ⟨⟩⟩) (by simp)
    · rename_i not24 not25 not26 not27 not31
      refine iff_of_false (by rintro ⟨_, _, ⟨⟩⟩) ?_
      rintro (⟨most, -⟩ | ⟨last, -⟩)
      · have known : info = 24 ∨ info = 25 ∨ info = 26 ∨ info = 27 := by omega
        rcases known with one | two | four | eight
        · exact not24 one
        · exact not25 two
        · exact not26 four
        · exact not27 eight
      · exact not31 last

theorem outcome_readHeader_cons (initial : UInt8) (behind : Bytes) :
    outcome readHeader (initial :: behind) =
      (fun p => (Header.mk initial p.1, p.2)) <$> outcome (readArgument initial) behind := by
  rw [readHeader, outcome_bind, outcome_readByte, ok_bind, outcome_bind]
  cases outcome (readArgument initial) behind <;> rfl

theorem accepts_readHeader (input : Bytes) :
    (∃ header rest, outcome readHeader input = .ok (header, rest)) ↔
      ∃ initial behind, input = initial :: behind ∧ OpensHead initial behind := by
  constructor
  · rintro ⟨header, rest, read⟩
    cases input with
    | nil => cases read
    | cons initial behind =>
      rw [outcome_readHeader_cons] at read
      obtain ⟨⟨argument, after⟩, found, -⟩ := map_eq_ok.mp read
      exact ⟨initial, behind, rfl, (accepts_readArgument initial behind).mp ⟨argument, after, found⟩⟩
  · rintro ⟨initial, behind, rfl, opens⟩
    obtain ⟨argument, rest, found⟩ := (accepts_readArgument initial behind).mpr opens
    rw [outcome_readHeader_cons, found]
    exact ⟨_, _, rfl⟩

end Cursor

theorem Header.of_head (major : Major) (n : UInt64) :
    ((Head.shortest n.toNat).header major).major = major ∧
      ((Head.shortest n.toNat).header major).argument = .value n := by
  have fits : (Head.shortest n.toNat).Fits := Head.fits_shortest n.toNat_lt
  refine ⟨@openingHeader_major (some (.shortest n.toNat)) major (by simpa using fits), ?_⟩
  rw [Head.argument_header, Head.number, Head.shortest, UInt64.ofNat_toNat]

theorem Cursor.outcome_readTags_tags (tags : List UInt64) {major : Major} (other : major ≠ .tag) (n : UInt64)
    (rest : Bytes) :
    outcome readTags (Wire.tags tags ++ (Wire.head major n ++ rest)) = .ok (tags, Wire.head major n ++ rest) := by
  have made : ∀ tag ∈ tags.map (fun n => Head.shortest n.toNat), tag.Made := by
    intro tag member
    obtain ⟨n, -, rfl⟩ := List.mem_map.mp member
    exact Head.made_shortest n.toNat_lt
  have stops : Major.ofInitial ((Head.shortest n.toNat).header major).initial ≠ .tag :=
    fun tag => other ((Header.of_head major n).1.symm.trans tag)
  have spelled := wire_tags made
  have read := outcome_readTags (fun tag member => (made tag member).fits) stops
    ((openingBytes major (some (Head.shortest n.toNat))).tail ++ rest)
  rw [Head.map_number_shortest] at spelled read
  rw [spelled, Wire.head_eq]
  exact read

-- What holds of heads on a machine whose words are below the limit.
structure Wire.CarriesHeads (limit : Nat) : Prop where
  -- Behind any bytes, and in front of any, tags and the head behind them are read back and nothing else is taken.
  tagged : ∀ (before : Bytes) (tags : List UInt64) (major : Major) (n : UInt64) (rest : Bytes), major ≠ .tag →
    let input := before ++ (Wire.tags tags ++ (Wire.head major n ++ rest))
    ∃ header : Header, header.major = major ∧ header.argument = .value n ∧
      outcome Cursor.readTags (input.drop before.length) = .ok (tags, Wire.head major n ++ rest) ∧
      outcome Cursor.readHeader (Wire.head major n ++ rest) = .ok (header, rest) ∧
      (input.length < limit →
        Indexed.readTags limit input before.length = .ok tags (before ++ Wire.tags tags).length ∧
        Indexed.readHeader limit input (before ++ Wire.tags tags).length =
          .ok header (before ++ (Wire.tags tags ++ Wire.head major n)).length)
  -- A head of any major type is read back on its own.
  alone : ∀ (major : Major) (n : UInt64) (rest : Bytes), ∃ header : Header,
    header.major = major ∧ header.argument = .value n ∧
      outcome Cursor.readHeader (Wire.head major n ++ rest) = .ok (header, rest)
  -- What is written for a head that was read is no longer than the head, and says the same.
  shortest : ∀ (input rest : Bytes) (header : Header) (n : UInt64),
    outcome Cursor.readHeader input = .ok (header, rest) → header.argument = .value n →
    (Wire.head header.major n).length ≤ input.length - rest.length ∧
      ∀ more, ∃ again : Header, again.major = header.major ∧ again.argument = .value n ∧
        outcome Cursor.readHeader (Wire.head header.major n ++ more) = .ok (again, more)
  accepts : ∀ input, (∃ header rest, outcome Cursor.readHeader input = .ok (header, rest)) ↔
    ∃ initial behind, input = initial :: behind ∧ Cursor.OpensHead initial behind
  -- The two parts of an initial byte are its high and its low bits, to the one who writes and to the one who reads.
  written : ∀ (major : Major) (info : Nat), info < 32 →
    major.initial info = (UInt8.ofNat major.code <<< 5) ||| UInt8.ofNat info
  read : ∀ header : Header, header.major = Major.ofCode (header.initial >>> 5).toNat ∧
    header.info = (header.initial &&& 0x1f).toNat

-- A head that is written is read back wherever it stands, and no head that is read as the same is shorter.
theorem Wire.carriesHeads (limit : Nat) : CarriesHeads limit where
  tagged before tags major n rest other := by
    intro input
    obtain ⟨same, argument⟩ := Header.of_head major n
    have tagged := Cursor.outcome_readTags_tags tags other n rest
    have read := Cursor.outcome_readHeader_head major n rest
    have behind : input.drop before.length = Wire.tags tags ++ (Wire.head major n ++ rest) := List.drop_left
    have behind' : input.drop (before ++ Wire.tags tags).length = Wire.head major n ++ rest := by
      rw [List.length_append, ← List.drop_drop, behind]
      exact List.drop_left
    have length : input.length =
        before.length + ((Wire.tags tags).length + ((Wire.head major n).length + rest.length)) := by
      simp only [input, List.length_append]
    refine ⟨_, same, argument, behind ▸ tagged, read, fun fits => ⟨?_, ?_⟩⟩
    · have ran := (Indexed.tracks_readTags fits).answers (show before.length ≤ input.length by omega)
        (behind ▸ ran_of_outcome tagged)
      rw [ran]
      congr 1
      simp only [length, List.length_append]
      omega
    · have inside : (before ++ Wire.tags tags).length ≤ input.length := by
        rw [List.length_append]
        omega
      have ran := (Indexed.tracks_readHeader fits).answers inside (behind' ▸ ran_of_outcome read)
      rw [ran]
      congr 1
      simp only [length, List.length_append]
      omega
  alone major n rest := by
    obtain ⟨same, argument⟩ := Header.of_head major n
    exact ⟨_, same, argument, Cursor.outcome_readHeader_head major n rest⟩
  shortest input rest header n read argument := by
    refine ⟨?_, fun more => ?_⟩
    · obtain ⟨head?, fits, -, same, spelled⟩ := Cursor.opening_of_readHeader read
      cases head? with
      | none =>
        rw [same] at argument
        cases argument
      | some head =>
        rw [same] at argument
        cases argument
        rw [spelled, List.length_append, Nat.add_sub_cancel]
        exact length_head_le (fits head rfl) header.major
    · obtain ⟨same, argument⟩ := Header.of_head header.major n
      exact ⟨_, same, argument, Cursor.outcome_readHeader_head header.major n more⟩
  accepts := Cursor.accepts_readHeader
  written major _ small := major.initial_inBits small
  read header := ⟨Major.ofInitial_inBits header.initial, header.info_inBits⟩

def Bytes.labelled : Bytes :=
  [0xff, 0xd7, 0xd8, 0x18, 0xdb, 0xff, 0xff, 0xff, 0xff, 0xff, 0xff, 0xff, 0xff, 0x3b, 0x00, 0x00, 0x00, 0x01, 0x00,
    0x00, 0x00, 0x00, 0xc1]

theorem Wire.carriesHeads_labelled :
    (∃ header : Header, header.major = .negative ∧ header.argument = .value 0x100000000 ∧
        Indexed.readTags (2 ^ 64) Bytes.labelled 1 = .ok [23, 24, 0xffffffffffffffff] 13 ∧
        Indexed.readHeader (2 ^ 64) Bytes.labelled 13 = .ok header 22) ∧
      outcome Cursor.readHeader [0x1b, 0, 0, 0, 0, 0, 0, 0, 0x17, 0xff] = .ok (⟨0x1b, .value 23⟩, [0xff]) ∧
      (Wire.head .unsigned 23).length ≤ 9 ∧
      (∀ input ∈ [[0x1c], [0x1f], [0x19, 0x01]], ¬∃ header rest, outcome Cursor.readHeader input = .ok (header, rest)) ∧
      ∃ header rest, outcome Cursor.readHeader [0xff] = .ok (header, rest) := by
  have carries := Wire.carriesHeads (2 ^ 64)
  have spelled : Bytes.labelled = [0xff] ++
      (Wire.tags [23, 24, 0xffffffffffffffff] ++ (Wire.head .negative 0x100000000 ++ [0xc1])) := by decide
  obtain ⟨header, same, argument, -, -, placed⟩ :=
    carries.tagged [0xff] [23, 24, 0xffffffffffffffff] .negative 0x100000000 [0xc1] (by decide)
  rw [← spelled] at placed
  obtain ⟨tags, head⟩ := placed (by decide)
  have wide : outcome Cursor.readHeader [0x1b, 0, 0, 0, 0, 0, 0, 0, 0x17, 0xff] =
      .ok (⟨0x1b, .value 23⟩, [0xff]) := by rfl
  refine ⟨⟨header, same, argument, tags, head⟩, wide, (carries.shortest _ _ _ _ wide rfl).1,
    fun input member => ?_, (carries.accepts [0xff]).mpr ⟨0xff, [], rfl, by decide⟩⟩
  rw [carries.accepts]
  rintro ⟨initial, behind, rfl, opens⟩
  simp only [List.mem_cons, List.cons.injEq, List.not_mem_nil, or_false] at member
  rcases member with ⟨rfl, rfl⟩ | ⟨rfl, rfl⟩ | ⟨rfl, rfl⟩
  · exact absurd opens (by decide)
  · exact absurd opens (by decide)
  · exact absurd opens (by decide)

end TypedCbor
