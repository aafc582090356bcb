import TypedCbor.Proofs.Integers
import TypedCbor.Proofs.Item.Scalar
import TypedCbor.Proofs.Item.Defaults
import TypedCbor.Proofs.Output

namespace TypedCbor

namespace Ieee

-- As floats are compared: a NaN equals nothing, and the zeros equal each other.
def Number.equals : Number → Number → Bool
  | .finite sign m, .finite sign' n => m = n ∧ (m = 0 ∨ sign = sign')
  | .infinite sign, .infinite sign' => sign = sign'
  | _, _ => false

def equals (x y : UInt64) : Bool := (double.number x.toNat).equals (double.number y.toNat)

-- Conversions between doubles and the patterns of a format. The sign of a zero is part of the number.
structure Exact {α : Type} (f : Format) (pattern : α → Nat) (narrow : UInt64 → α) (widen : α → UInt64) : Prop where
  widens : ∀ a, double.number (widen a).toNat = f.number (pattern a)
  finds : ∀ a bits, f.isNaN (pattern a) = false → f.number (pattern a) = double.number bits.toNat → narrow bits = a

theorem exact_half : Exact half UInt16.toNat halfOfDouble doubleOfHalf :=
  ⟨number_doubleOfHalf, fun _ _ => halfOfDouble_of_number⟩

theorem exact_single : Exact single UInt32.toNat singleOfDouble doubleOfSingle :=
  ⟨number_doubleOfSingle, fun _ _ => singleOfDouble_of_number⟩

theorem Number.equals_self {number : Number} (some : number ≠ .notANumber) : number.equals number = true := by
  cases number with
  | notANumber => exact absurd rfl some
  | infinite sign => exact decide_eq_true rfl
  | finite sign count => exact decide_eq_true ⟨rfl, .inr rfl⟩

theorem Number.equals_cases {x y : Number} (same : x.equals y = true) : x = y ∨ ∃ sign, y = .finite sign 0 := by
  unfold equals at same
  split at same
  · rename_i sign m sign' n
    obtain ⟨rfl, rfl | rfl⟩ := of_decide_eq_true same
    · exact .inr ⟨sign', rfl⟩
    · exact .inl rfl
  · exact .inl (congrArg _ (of_decide_eq_true same))
  · cases same

theorem sign_lt_of_number {bits : UInt64} {sign count : Nat} (number : double.number bits.toNat = .finite sign count) :
    sign < 2 := by
  have small : double.sign bits.toNat < 2 :=
    (Nat.div_lt_iff_lt_mul (show 0 < double.signPlace by decide)).mpr bits.toNat_lt
  unfold Format.number at number
  split at number
  · cases number
  split at number
  · cases number
  · cases number
    exact small

namespace Exact

variable {α : Type} {f : Format} {pattern : α → Nat} {narrow : UInt64 → α} {widen : α → UInt64} {bits : UInt64}

theorem isNaN_widen (exact : Exact f pattern narrow widen) (a : α) : isNaN (widen a) = f.isNaN (pattern a) :=
  Format.isNaN_congr (exact.widens a)

theorem widen_eq_iff (exact : Exact f pattern narrow widen) (number : isNaN bits = false) :
    widen (narrow bits) = bits ↔ ∃ a, f.number (pattern a) = double.number bits.toNat := by
  constructor
  · intro same
    exact ⟨narrow bits, by rw [← exact.widens, same]⟩
  · rintro ⟨a, same⟩
    have found : narrow bits = a := exact.finds a bits ((Format.isNaN_congr same).trans number) same
    rw [found]
    exact UInt64.toNat_inj.mp
      (Format.eq_of_number proper_double ((exact.isNaN_widen a).trans ((Format.isNaN_congr same).trans number))
        ((exact.widens a).trans same))

theorem equals_widen_iff (exact : Exact f pattern narrow widen) (number : isNaN bits = false)
    (zeros : ∀ sign < 2, ∃ a, f.number (pattern a) = .finite sign 0) :
    equals (widen (narrow bits)) bits = true ↔ ∃ a, f.number (pattern a) = double.number bits.toNat := by
  constructor
  · intro same
    rcases Number.equals_cases same with same | ⟨sign, zero⟩
    · exact ⟨narrow bits, (exact.widens _).symm.trans same⟩
    · rw [zero]
      exact zeros sign (sign_lt_of_number zero)
  · intro found
    rw [(exact.widen_eq_iff number).mpr found]
    refine Number.equals_self fun nan => ?_
    rw [Format.number_eq_notANumber] at nan
    exact Bool.false_ne_true (number.symm.trans nan)

theorem equals_widen_eq (exact : Exact f pattern narrow widen) (number : isNaN bits = false)
    (zeros : ∀ sign < 2, ∃ a, f.number (pattern a) = .finite sign 0) :
    equals (widen (narrow bits)) bits = true ↔ widen (narrow bits) = bits :=
  (exact.equals_widen_iff number zeros).trans (exact.widen_eq_iff number).symm

theorem widen_congr {narrow' : UInt64 → α} {widen' : α → UInt64} (exact : Exact f pattern narrow widen)
    (exact' : Exact f pattern narrow' widen') {a : α} (number : f.isNaN (pattern a) = false) : widen a = widen' a :=
  UInt64.toNat_inj.mp (Format.eq_of_number proper_double ((exact.isNaN_widen a).trans number)
    ((exact.widens a).trans (exact'.widens a).symm))

end Exact

theorem zeros_half : ∀ sign < 2, ∃ bits : UInt16, half.number bits.toNat = .finite sign 0
  | 0, _ => ⟨0, by decide⟩
  | 1, _ => ⟨0x8000, by decide⟩

theorem zeros_single : ∀ sign < 2, ∃ bits : UInt32, single.number bits.toNat = .finite sign 0
  | 0, _ => ⟨0, by decide⟩
  | 1, _ => ⟨0x80000000, by decide⟩

end Ieee

-- Writing and reading with these conversions of halves, the comparison being that of floats.
def Wire.compactWith (narrow : UInt64 → UInt16) (widen : UInt16 → UInt64) (bits : UInt64) : Bytes :=
  if Ieee.isNaN bits then half canonicalNaN
  else if Ieee.equals (widen (narrow bits)) bits then half (narrow bits)
  else if Ieee.equals (Ieee.doubleOfSingle (Ieee.singleOfDouble bits)) bits then fixedSingle (Ieee.singleOfDouble bits)
  else fixedDouble bits

def Header.floatWith (widen : UInt16 → UInt64) (header : Header) : Except Error UInt64 :=
  match header.major, header.argument with
  | .simple, .value n =>
    if header.info = halfInfo then .ok (widen n.toUInt16)
    else if header.info = singleInfo then .ok (Ieee.doubleOfSingle n.toUInt32)
    else if header.info = doubleInfo then .ok n
    else .error (header.unexpected "float")
  | _, _ => .error (header.unexpected "float")

section
variable {narrow : UInt64 → UInt16} {widen : UInt16 → UInt64} {bits : UInt64}

theorem Wire.compactWith_eq (halves : Ieee.Exact Ieee.half UInt16.toNat narrow widen) :
    compactWith narrow widen = compact := by
  funext bits
  unfold compactWith compact
  split
  · rfl
  rename_i some
  have number : Ieee.isNaN bits = false := Bool.eq_false_iff.mpr some
  refine if_ctx_congr ?_ (fun found => ?_) fun _ => if_congr ?_ rfl rfl
  · rw [halves.equals_widen_iff number Ieee.zeros_half, Ieee.exact_half.widen_eq_iff number]
  · rw [Ieee.exact_half.widen_eq_iff number] at found
    obtain ⟨a, same⟩ := found
    have some := (Ieee.Format.isNaN_congr same).trans number
    rw [halves.finds a bits some same, Ieee.halfOfDouble_of_number some same]
  · exact Ieee.exact_single.equals_widen_eq number Ieee.zeros_single

theorem Header.floatWith_eq (halves : Ieee.Exact Ieee.half UInt16.toNat narrow widen) (header : Header) :
    header.floatWith widen = header.float ∨ ∃ found found', header.floatWith widen = .ok found ∧
      header.float = .ok found' ∧ Ieee.isNaN found = true ∧ Ieee.isNaN found' = true := by
  unfold floatWith float
  cases header.major with
  | unsigned | negative | bytes | text | array | map | tag => exact .inl rfl
  | simple =>
    cases header.argument with
    | indefinite => exact .inl rfl
    | value n =>
      dsimp only
      split
      · cases nan : Ieee.half.isNaN n.toUInt16.toNat with
        | false => exact .inl (congrArg _ (halves.widen_congr Ieee.exact_half nan))
        | true =>
          exact .inr ⟨_, _, rfl, rfl, (halves.isNaN_widen _).trans nan, (Ieee.exact_half.isNaN_widen _).trans nan⟩
      · exact .inl rfl

theorem Head.floatWith_header {head : Head} (fits : head.Fits) (widen : UInt16 → UInt64) :
    (head.header .simple).floatWith widen =
      match head.width with
      | .two => .ok (widen (UInt16.ofNat head.n))
      | .four => .ok (Ieee.doubleOfSingle (UInt32.ofNat head.n))
      | .eight => .ok (UInt64.ofNat head.n)
      | .immediate | .one => .error ((head.header .simple).unexpected "float") := by
  have small : head.width.info head.n < 32 := Nat.lt_trans fits.info_lt (by decide)
  have major : (head.header .simple).major = .simple := Major.ofInitial_initial _ small
  have info : (head.header .simple).info = head.width.info head.n := Major.initial_info _ small
  simp only [Header.floatWith, major, info, Head.argument_header, Head.number]
  rcases head with ⟨width, n⟩
  cases width with
  | immediate =>
    have limit : n < 24 := fits
    have other (code : Nat) (large : 24 ≤ code) : Width.info n .immediate ≠ code :=
      Nat.ne_of_lt (Nat.lt_of_lt_of_le limit large)
    rw [if_neg (other _ (by decide)), if_neg (other _ (by decide)), if_neg (other _ (by decide))]
  | one => rfl
  | two => exact congrArg (fun half => Except.ok (widen half)) (UInt64.toUInt16_ofNat' n)
  | four => exact congrArg (fun single => Except.ok (Ieee.doubleOfSingle single)) (UInt64.toUInt32_ofNat' n)
  | eight => rfl

theorem Head.floatWith_half (widen : UInt16 → UInt64) (bits : UInt16) :
    ((Head.mk .two bits.toNat).header .simple).floatWith widen = .ok (widen bits) := by
  rw [@floatWith_header ⟨.two, bits.toNat⟩ bits.toNat_lt]
  exact congrArg (fun half => Except.ok (widen half)) UInt16.ofNat_toNat

theorem Head.floatWith_single (widen : UInt16 → UInt64) (bits : UInt32) :
    ((Head.mk .four bits.toNat).header .simple).floatWith widen = .ok (Ieee.doubleOfSingle bits) := by
  rw [@floatWith_header ⟨.four, bits.toNat⟩ bits.toNat_lt]
  exact congrArg (fun single => Except.ok (Ieee.doubleOfSingle single)) UInt32.ofNat_toNat

theorem Head.floatWith_double (widen : UInt16 → UInt64) (bits : UInt64) :
    ((Head.mk .eight bits.toNat).header .simple).floatWith widen = .ok bits := by
  rw [@floatWith_header ⟨.eight, bits.toNat⟩ bits.toNat_lt]
  exact congrArg Except.ok UInt64.ofNat_toNat

theorem Head.has_of_floatWith (halves : Ieee.Exact Ieee.half UInt16.toNat narrow widen) {head : Head}
    (fits : head.Fits) (read : (head.header .simple).floatWith widen = .ok bits) :
    (head.width = .two ∧ ∃ half : UInt16, Ieee.half.number half.toNat = Ieee.double.number bits.toNat) ∨
    (head.width = .four ∧ ∃ single : UInt32, Ieee.single.number single.toNat = Ieee.double.number bits.toNat) ∨
    head.width = .eight := by
  rw [floatWith_header fits] at read
  rcases known : head.width with _ | _ | _ | _ | _ <;> simp only [known] at read
  · cases read
  · cases read
  · cases read
    exact .inl ⟨rfl, _, (halves.widens _).symm⟩
  · cases read
    exact .inr (.inl ⟨rfl, _, (Ieee.number_doubleOfSingle _).symm⟩)
  · exact .inr (.inr rfl)

theorem exists_compact (halves : Ieee.Exact Ieee.half UInt16.toNat narrow widen) (number : Ieee.isNaN bits = false) :
    ∃ head : Head, head.Fits ∧ head.width.size ∈ [2, 4, 8] ∧
      Wire.compactWith narrow widen bits = head.bytes .simple ∧
      (head.header .simple).floatWith widen = .ok bits ∧
      ∀ other : Head, other.Fits → (other.header .simple).floatWith widen = .ok bits →
        head.width.size ≤ other.width.size := by
  unfold Wire.compactWith
  rw [if_neg (by simp [number])]
  split
  · rename_i same
    rw [halves.equals_widen_eq number Ieee.zeros_half] at same
    refine ⟨⟨.two, (narrow bits).toNat⟩, (narrow bits).toNat_lt, by simp [Width.size], rfl, ?_,
      fun other fits read => ?_⟩
    · rw [Head.floatWith_half, same]
    · rcases Head.has_of_floatWith halves fits read with ⟨width, -⟩ | ⟨width, -⟩ | width <;>
        simp [width, Width.size]
  rename_i noHalf
  rw [halves.equals_widen_iff number Ieee.zeros_half] at noHalf
  split
  · rename_i same
    rw [Ieee.exact_single.equals_widen_eq number Ieee.zeros_single] at same
    refine ⟨⟨.four, (Ieee.singleOfDouble bits).toNat⟩, (Ieee.singleOfDouble bits).toNat_lt, by simp [Width.size],
      rfl, ?_, fun other fits read => ?_⟩
    · rw [Head.floatWith_single, same]
    · rcases Head.has_of_floatWith halves fits read with ⟨-, half⟩ | ⟨width, -⟩ | width
      · exact absurd half noHalf
      all_goals simp [width, Width.size]
  · rename_i noSingle
    rw [Ieee.exact_single.equals_widen_iff number Ieee.zeros_single] at noSingle
    refine ⟨⟨.eight, bits.toNat⟩, bits.toNat_lt, by simp [Width.size], rfl, Head.floatWith_double widen bits,
      fun other fits read => ?_⟩
    rcases Head.has_of_floatWith halves fits read with ⟨-, half⟩ | ⟨-, single⟩ | width
    · exact absurd half noHalf
    · exact absurd single noSingle
    · simp [width, Width.size]

end

theorem Wire.length_double (form : FloatForm) (bits : UInt64) : (double form bits).length < 2 ^ 64 := by
  cases form with
  | fixed => exact show 9 < 2 ^ 64 by decide
  | shortest =>
    change (compact bits).length < 2 ^ 64
    unfold compact
    split_ifs
    · exact show 3 < 2 ^ 64 by decide
    · exact show 3 < 2 ^ 64 by decide
    · exact show 5 < 2 ^ 64 by decide
    · exact show 9 < 2 ^ 64 by decide

theorem Wire.length_single (form : FloatForm) (bits : UInt32) : (single form bits).length < 2 ^ 64 := by
  cases form with
  | fixed => exact show 5 < 2 ^ 64 by decide
  | shortest => exact length_double .shortest _

section
variable {config : Config} {field : Option Element} {pending own : List UInt64} {found : UInt64}

theorem outcome_readFloat {item : Item} (made : item.Everywhere (Item.Made true)) (small : item.wire.length < 2 ^ 64)
    (untagged : item.tags = []) (float : item.body.header.float = .ok found)
    (clear : ItemReader.ownTags config field pending = .ok own) (rest : Bytes) :
    outcome (Decoder.readFloat config) ⟨item.wire ++ rest, field, pending⟩ = .ok (found, ⟨rest, none, []⟩) := by
  have same := Item.wire_eq_bytes made small
  have formed := made.here.formed (same ▸ small)
  have clear' : ItemReader.ownTags config field (pending ++ item.tagNumbers) = .ok own := by
    rw [Item.tagNumbers, untagged, List.map_nil, List.append_nil, clear]
  rw [same, Decoder.followsAt_readFloat formed field pending rest]
  simp only [ItemReader.ofHeader, ItemReader.behindTags, clear', ok_bind, float, ok_map]

theorem outcome_readDouble (clear : ItemReader.ownTags config field pending = .ok own) (form : Wire.FloatForm)
    (bits : UInt64) (rest : Bytes) :
    ∃ found, outcome (Ty.double.read config) ⟨Wire.double form bits ++ rest, field, pending⟩ =
        .ok (.double found, ⟨rest, none, []⟩) ∧
      (found = bits ∨ Ieee.isNaN found = true ∧ Ieee.isNaN bits = true) := by
  obtain ⟨found, float, same⟩ := Item.float_ofDouble form bits
  obtain ⟨width, n, simple⟩ := Item.ofDouble_cases form bits
  have small : (Item.ofDouble form bits).wire.length < 2 ^ 64 := by
    rw [Item.wire_ofDouble]
    exact Wire.length_double form bits
  have read := outcome_readFloat (Item.made_ofDouble form bits) small (simple ▸ rfl) float clear rest
  rw [Item.wire_ofDouble] at read
  refine ⟨found, ?_, same⟩
  rw [Ty.read, outcome_map, read]
  rfl

theorem outcome_readSingle (clear : ItemReader.ownTags config field pending = .ok own) (form : Wire.FloatForm)
    (bits : UInt32) (rest : Bytes) :
    ∃ found, outcome (Ty.single.read config) ⟨Wire.single form bits ++ rest, field, pending⟩ =
        .ok (.single found, ⟨rest, none, []⟩) ∧
      (found = bits ∨ Ieee.single.isNaN found.toNat = true ∧ Ieee.single.isNaN bits.toNat = true) := by
  obtain ⟨found, float, same⟩ := Item.float_ofSingle form bits
  obtain ⟨width, n, simple⟩ := Item.ofSingle_cases form bits
  have small : (Item.ofSingle form bits).wire.length < 2 ^ 64 := by
    rw [Item.wire_ofSingle]
    exact Wire.length_single form bits
  have read := outcome_readFloat (Item.made_ofSingle form bits) small (simple ▸ rfl) float clear rest
  rw [Item.wire_ofSingle] at read
  refine ⟨Ieee.singleOfDouble found, ?_, same⟩
  rw [Ty.read, outcome_map, read]
  rfl

end

namespace Config

-- A float that is a number is written as the narrowest of three heads, which reads as the same pattern; a NaN is
-- written as one of them and read as some NaN. Singles are no different. What a document carries in either form is
-- read by any configuration.
theorem carries_floats {narrow : UInt64 → UInt16} {widen : UInt16 → UInt64}
    (halves : Ieee.Exact Ieee.half UInt16.toNat narrow widen) :
    (∀ bits : UInt64, Ieee.isNaN bits = false → ∃ head : Head, head.Fits ∧ head.width.size ∈ [2, 4, 8] ∧
      Wire.compactWith narrow widen bits = head.bytes .simple ∧
      (head.header .simple).floatWith widen = .ok bits ∧
      ∀ other : Head, other.Fits → (other.header .simple).floatWith widen = .ok bits →
        head.width.size ≤ other.width.size) ∧
    (∀ bits : UInt64, Ieee.isNaN bits = true → Wire.compactWith narrow widen bits = [0xf9, 0x7e, 0x00]) ∧
    (∃ found, ((Head.mk .two 0x7e00).header .simple).floatWith widen = .ok found ∧ Ieee.isNaN found = true) ∧
    (∀ bits : UInt32, Ieee.single.isNaN bits.toNat = false → ∃ (head : Head) (found : UInt64), head.Fits ∧
      Wire.compactWith narrow widen (Ieee.doubleOfSingle bits) = head.bytes .simple ∧
      (head.header .simple).floatWith widen = .ok found ∧ Ieee.singleOfDouble found = bits) ∧
    (∀ (head : Head) (rest : Bytes), head.Fits →
      outcome Cursor.readHeader (head.bytes .simple ++ rest) = .ok (head.header .simple, rest)) ∧
    (∀ (bits : UInt64) (bits' : UInt32),
      Wire.double .shortest bits = Wire.compactWith narrow widen bits ∧
      Wire.single .shortest bits' = Wire.compactWith narrow widen (Ieee.doubleOfSingle bits') ∧
      Wire.double .fixed bits = (Head.mk .eight bits.toNat).bytes .simple ∧
      Wire.single .fixed bits' = (Head.mk .four bits'.toNat).bytes .simple) ∧
    (∀ header : Header, header.floatWith widen = header.float ∨ ∃ found found',
      header.floatWith widen = .ok found ∧ header.float = .ok found' ∧
      Ieee.isNaN found = true ∧ Ieee.isNaN found' = true) ∧
    (∀ (config : Config) (form : Wire.FloatForm) (field : Option Element) (pending own : List UInt64) (rest : Bytes),
      ItemReader.ownTags config field pending = .ok own →
      (∀ bits : UInt64, ∃ found,
        outcome (Ty.double.read config) ⟨Wire.double form bits ++ rest, field, pending⟩ =
          .ok (.double found, ⟨rest, none, []⟩) ∧
        (found = bits ∨ Ieee.isNaN found = true ∧ Ieee.isNaN bits = true)) ∧
      ∀ bits : UInt32, ∃ found,
        outcome (Ty.single.read config) ⟨Wire.single form bits ++ rest, field, pending⟩ =
          .ok (.single found, ⟨rest, none, []⟩) ∧
        (found = bits ∨ Ieee.single.isNaN found.toNat = true ∧ Ieee.single.isNaN bits.toNat = true)) ∧
    ∀ config other : Config,
      (∀ bits : UInt64, ∃ output found, config.encode (.double bits) = .ok output ∧
        output = Wire.double config.floatForm bits ∧ other.decode .double output = .ok (.double found) ∧
        (found = bits ∨ Ieee.isNaN found = true ∧ Ieee.isNaN bits = true)) ∧
      ∀ bits : UInt32, ∃ output found, config.encode (.single bits) = .ok output ∧
        output = Wire.single config.floatForm bits ∧ other.decode .single output = .ok (.single found) ∧
        (found = bits ∨ Ieee.single.isNaN found.toNat = true ∧ Ieee.single.isNaN bits.toNat = true) := by
  refine ⟨fun bits => exists_compact halves, fun bits nan => if_pos nan, ?_, fun bits number => ?_,
    fun head rest fits => ?_, fun bits bits' => ?_, Header.floatWith_eq halves, ?_, fun config other => ?_⟩
  · exact ⟨_, Head.floatWith_half widen 0x7e00, (halves.isNaN_widen _).trans (by decide)⟩
  · obtain ⟨head, fits, -, written, read, -⟩ := exists_compact halves ((Ieee.isNaN_doubleOfSingle bits).trans number)
    exact ⟨head, _, fits, written, read, Ieee.singleOfDouble_doubleOfSingle number⟩
  · have known : ∀ head' ∈ some head, head'.Fits := by simpa using fits
    exact Cursor.outcome_readHeader known (by simp) rest
  · rw [Wire.compactWith_eq halves]
    exact ⟨rfl, rfl, rfl, rfl⟩
  · intro config form field pending own rest clear
    exact ⟨fun bits => outcome_readDouble clear form bits rest, fun bits => outcome_readSingle clear form bits rest⟩
  · have clear : ItemReader.ownTags other none [] = .ok [] := rfl
    refine ⟨fun bits => ?_, fun bits => ?_⟩
    · obtain ⟨found, read, same⟩ := outcome_readDouble clear config.floatForm bits []
      rw [List.append_nil] at read
      exact ⟨_, found, rfl, rfl, decode_of_outcome read, same⟩
    · obtain ⟨found, read, same⟩ := outcome_readSingle clear config.floatForm bits []
      rw [List.append_nil] at read
      exact ⟨_, found, rfl, rfl, decode_of_outcome read, same⟩

theorem carries_small_floats :
    Wire.compact 0x3e70000000000000 = [0xf9, 0x00, 0x01] ∧
    Wire.compact 0x36a0000000000000 = [0xfa, 0x00, 0x00, 0x00, 0x01] ∧
    Wire.compact 0x3fb999999999999a = [0xfb, 0x3f, 0xb9, 0x99, 0x99, 0x99, 0x99, 0x99, 0x9a] ∧
    Wire.compact 0xfff0000000000001 = [0xf9, 0x7e, 0x00] ∧
    (Config.standard .fixed).decode .double [0xf9, 0x80, 0x00] = .ok (.double 0x8000000000000000) ∧
    (Config.standard .fixed).decode .single [0xfa, 0x00, 0x00, 0x00, 0x01] = .ok (.single 1) := by
  obtain ⟨-, nans, -, -, -, forms, -, -, documents⟩ := carries_floats Ieee.exact_half
  refine ⟨by decide +kernel, by decide +kernel, by decide +kernel, ?_, ?_, ?_⟩
  · exact (forms _ 0).1.trans (nans _ (by decide +kernel))
  · obtain ⟨output, found, -, written, read, same | ⟨-, nan⟩⟩ :=
      (documents (.standard .shortest) (.standard .fixed)).1 0x8000000000000000
    · have bytes : Wire.double .shortest 0x8000000000000000 = [0xf9, 0x80, 0x00] := by decide +kernel
      rw [written.trans bytes, same] at read
      exact read
    · exact absurd nan (by decide +kernel)
  · obtain ⟨output, found, -, written, read, same | ⟨-, nan⟩⟩ :=
      (documents (.standard .shortest) (.standard .fixed)).2 1
    · have bytes : Wire.single .shortest 1 = [0xfa, 0x00, 0x00, 0x00, 0x01] := by decide +kernel
      rw [written.trans bytes, same] at read
      exact read
    · exact absurd nan (by decide +kernel)

end Config
end TypedCbor
