import Mathlib.Algebra.Group.Nat.Defs
import TypedCbor.Ieee

namespace TypedCbor.Ieee

theorem halve_exact (m shift : Nat) : halve (m <<< shift) shift = m := by
  have positive : 0 < 2 ^ shift := Nat.two_pow_pos shift
  have whole : (m <<< shift) % 1 <<< shift = 0 := by
    rw [Nat.shiftLeft_eq, Nat.one_shiftLeft, Nat.mul_mod_left]
  simp only [halve, whole, Nat.shiftLeft_shiftRight]
  rw [if_neg]
  rw [Nat.one_shiftLeft]
  omega

namespace Format

variable {f : Format} {x n : Nat}

theorem infinity_le_signPlace (f : Format) : f.infinity ≤ f.signPlace := by
  simp only [infinity, signPlace, top, Nat.shiftLeft_eq, Nat.one_mul, Nat.pow_add]
  exact Nat.mul_le_mul_right _ (Nat.sub_le _ _)

theorem exponent_of_finite (finite : x < f.infinity) : f.exponent x = x / 2 ^ f.fractionBits := by
  have below := Nat.lt_of_lt_of_le finite f.infinity_le_signPlace
  rw [exponent, Nat.mod_eq_of_lt below, Nat.shiftRight_eq_div_pow]

theorem fraction_eq (f : Format) (x : Nat) : f.fraction x = x % 2 ^ f.fractionBits := by
  rw [fraction, Nat.one_shiftLeft]

theorem units_of_finite (finite : x < f.infinity) : f.units x =
    if x / 2 ^ f.fractionBits = 0 then x % 2 ^ f.fractionBits
    else (2 ^ f.fractionBits + x % 2 ^ f.fractionBits) * 2 ^ (x / 2 ^ f.fractionBits - 1) := by
  rw [units, exponent_of_finite finite, fraction_eq, Nat.one_shiftLeft, Nat.shiftLeft_eq]

theorem log2_mul_pow {m p k : Nat} (least : 2 ^ p ≤ m) (most : m < 2 ^ (p + 1)) :
    Nat.log2 (m * 2 ^ k) = p + k := by
  have positive : 0 < 2 ^ k := Nat.two_pow_pos k
  have nonzero : m * 2 ^ k ≠ 0 := by
    have := Nat.two_pow_pos p
    exact Nat.mul_ne_zero (by omega) (by omega)
  rw [Nat.log2_eq_iff nonzero, Nat.pow_add, show p + k + 1 = p + 1 + k by omega, Nat.pow_add]
  exact ⟨Nat.mul_le_mul_right _ least, Nat.mul_lt_mul_of_pos_right most positive⟩

theorem nearest_normal {m k shift : Nat} (least : 2 ^ f.fractionBits ≤ m)
    (most : m < 2 ^ (f.fractionBits + 1)) :
    f.nearest ((m * 2 ^ k) <<< shift) shift = min f.infinity (k * 2 ^ f.fractionBits + m) := by
  have split : (m * 2 ^ k) <<< shift = m <<< (shift + k) := by
    simp only [Nat.shiftLeft_eq, Nat.pow_add]
    rw [Nat.mul_assoc, Nat.mul_comm (2 ^ k)]
  simp only [nearest, Nat.shiftLeft_shiftRight, log2_mul_pow least most, Nat.add_sub_cancel_left]
  rw [split, halve_exact, Nat.shiftLeft_eq]

theorem nearest_small {shift : Nat} (small : n < 2 ^ f.fractionBits) :
    f.nearest (n <<< shift) shift = min f.infinity n := by
  have step : Nat.log2 n - f.fractionBits = 0 := by
    rcases Nat.eq_zero_or_pos n with rfl | positive
    · rw [Nat.log2_zero, Nat.zero_sub]
    · have := (Nat.log2_lt (Nat.ne_of_gt positive)).mpr small
      omega
  simp only [nearest, Nat.shiftLeft_shiftRight, step, Nat.zero_shiftLeft, Nat.zero_add, Nat.add_zero,
    halve_exact]

theorem nearest_units (finite : x < f.infinity) (shift : Nat) :
    f.nearest (f.units x <<< shift) shift = x := by
  have positive : 0 < 2 ^ f.fractionBits := Nat.two_pow_pos f.fractionBits
  have below := Nat.mod_lt x positive
  have parts := Nat.div_add_mod x (2 ^ f.fractionBits)
  rw [units_of_finite finite]
  split
  · rename_i subnormal
    rw [nearest_small below]
    rw [subnormal, Nat.mul_zero, Nat.zero_add] at parts
    omega
  · rename_i normal
    rw [nearest_normal (by omega) (by rw [Nat.pow_succ]; omega)]
    obtain ⟨k, exponent⟩ := Nat.exists_eq_succ_of_ne_zero normal
    rw [exponent, Nat.succ_eq_add_one, Nat.mul_add, Nat.mul_one, Nat.mul_comm] at parts
    rw [exponent, Nat.succ_eq_add_one, Nat.add_sub_cancel]
    omega

theorem units_nearest {m k : Nat} (least : 2 ^ f.fractionBits ≤ m)
    (most : m < 2 ^ (f.fractionBits + 1)) (fits : k * 2 ^ f.fractionBits + m < f.infinity)
    (shift : Nat) :
    f.nearest ((m * 2 ^ k) <<< shift) shift < f.infinity ∧
      f.units (f.nearest ((m * 2 ^ k) <<< shift) shift) = m * 2 ^ k := by
  have positive : 0 < 2 ^ f.fractionBits := Nat.two_pow_pos f.fractionBits
  rw [nearest_normal least most, Nat.min_eq_right (Nat.le_of_lt fits)]
  refine ⟨fits, ?_⟩
  obtain ⟨r, rfl⟩ := Nat.exists_eq_add_of_le least
  have small : r < 2 ^ f.fractionBits := by rw [Nat.pow_succ] at most; omega
  have parts : k * 2 ^ f.fractionBits + (2 ^ f.fractionBits + r) = r + 2 ^ f.fractionBits * (k + 1) := by
    rw [Nat.mul_add, Nat.mul_one, Nat.mul_comm]
    omega
  rw [units_of_finite fits, parts, Nat.add_mul_div_left _ _ positive, Nat.add_mul_mod_self_left,
    Nat.div_eq_of_lt small, Nat.mod_eq_of_lt small, Nat.zero_add, Nat.add_sub_cancel,
    if_neg (Nat.succ_ne_zero k)]

theorem units_nearest_of_digits {c e : Nat} (positive : c ≠ 0) (few : c.log2 ≤ f.fractionBits)
    (many : f.fractionBits ≤ c.log2 + e) (fits : c.log2 + e + 2 ≤ f.top + f.fractionBits) (shift : Nat) :
    f.nearest ((c * 2 ^ e) <<< shift) shift < f.infinity ∧
      f.units (f.nearest ((c * 2 ^ e) <<< shift) shift) = c * 2 ^ e := by
  obtain ⟨zeros, digits⟩ := Nat.exists_eq_add_of_le few
  obtain ⟨k, exponent⟩ : ∃ k, e = zeros + k := ⟨e - zeros, by omega⟩
  have split : c * 2 ^ e = c * 2 ^ zeros * 2 ^ k := by rw [exponent, Nat.pow_add, Nat.mul_assoc]
  have least : 2 ^ f.fractionBits ≤ c * 2 ^ zeros := by
    rw [digits, Nat.pow_add]
    exact Nat.mul_le_mul_right _ (Nat.log2_self_le positive)
  have most : c * 2 ^ zeros < 2 ^ (f.fractionBits + 1) := by
    rw [digits, Nat.add_right_comm, Nat.pow_add]
    exact Nat.mul_lt_mul_of_pos_right Nat.lt_log2_self (Nat.two_pow_pos _)
  have room : (k + 2) * 2 ^ f.fractionBits ≤ f.infinity := by
    rw [infinity, Nat.shiftLeft_eq]
    exact Nat.mul_le_mul_right _ (by omega)
  rw [Nat.add_mul] at room
  rw [Nat.pow_succ] at most
  rw [split]
  exact units_nearest least (by rwa [Nat.pow_succ]) (by omega) shift

theorem sign_add (finite : x < f.signPlace) (s : Nat) : f.sign (s * f.signPlace + x) = s := by
  rw [sign, Nat.add_comm, Nat.add_mul_div_right _ _ (Nat.lt_of_le_of_lt (Nat.zero_le x) finite),
    Nat.div_eq_of_lt finite, Nat.zero_add]

theorem mod_sign_add (below : x < f.signPlace) (s : Nat) : (s * f.signPlace + x) % f.signPlace = x := by
  rw [Nat.mul_comm, Nat.mul_add_mod, Nat.mod_eq_of_lt below]

theorem exponent_sign_add (below : x < f.signPlace) (s : Nat) :
    f.exponent (s * f.signPlace + x) = f.exponent x := by
  rw [exponent, exponent, mod_sign_add below, Nat.mod_eq_of_lt below]

theorem units_sign_add (below : x < f.signPlace) (s : Nat) :
    f.units (s * f.signPlace + x) = f.units x := by
  have same : f.fraction (s * f.signPlace + x) = f.fraction x := by
    rw [fraction_eq, fraction_eq, signPlace, Nat.one_shiftLeft, Nat.pow_add, Nat.mul_left_comm,
      ← Nat.mul_assoc, Nat.mul_comm (2 ^ f.exponentBits * s), Nat.mul_add_mod]
  rw [units, units, exponent_sign_add below, same]

theorem isNaN_sign_add (below : x < f.signPlace) (s : Nat) :
    f.isNaN (s * f.signPlace + x) = decide (f.infinity < x) := by
  rw [isNaN, mod_sign_add below]

theorem exponent_infinity (below : f.infinity < f.signPlace) : f.exponent f.infinity = f.top := by
  rw [exponent, Nat.mod_eq_of_lt below, infinity, Nat.shiftLeft_shiftRight]

theorem exponent_ne_top (finite : x < f.infinity) : f.exponent x ≠ f.top := by
  rw [exponent_of_finite finite]
  refine Nat.ne_of_lt ((Nat.div_lt_iff_lt_mul (Nat.two_pow_pos _)).mpr ?_)
  rwa [infinity, Nat.shiftLeft_eq] at finite

end Format

section
variable {source target : Format} {x : Nat}

theorem convert_nan (below : x < source.signPlace) (nan : source.infinity < x) (s : Nat) :
    convert source target (s * source.signPlace + x) = s * target.signPlace + target.quietNaN := by
  rw [convert, Format.sign_add below, Format.isNaN_sign_add below, decide_eq_true nan, if_pos rfl]

theorem convert_infinity (below : source.infinity < source.signPlace) (s : Nat) :
    convert source target (s * source.signPlace + source.infinity) =
      s * target.signPlace + target.infinity := by
  rw [convert, Format.sign_add below, Format.isNaN_sign_add below, Format.exponent_sign_add below,
    Format.exponent_infinity below, decide_eq_false (Nat.lt_irrefl _), if_neg Bool.false_ne_true, if_pos rfl]

theorem convert_finite (finite : x < source.infinity) (s : Nat) :
    convert source target (s * source.signPlace + x) = s * target.signPlace +
      target.nearest (source.units x <<< target.unitExponent) source.unitExponent := by
  have below := Nat.lt_of_lt_of_le finite source.infinity_le_signPlace
  rw [convert, Format.sign_add below, Format.isNaN_sign_add below, Format.exponent_sign_add below,
    Format.units_sign_add below, decide_eq_false (Nat.not_lt.mpr (Nat.le_of_lt finite)),
    if_neg Bool.false_ne_true, if_neg (Format.exponent_ne_top finite)]

end

-- What a pattern stands for. A finite number is told by how often it holds the least positive double, which is a whole
-- number in every format here. The two zeros are apart.
inductive Number where
  | notANumber
  | infinite (sign : Nat)
  | finite (sign count : Nat)
  deriving DecidableEq

def Format.number (f : Format) (bits : Nat) : Number :=
  if f.isNaN bits then .notANumber
  else if f.exponent bits = f.top then .infinite (f.sign bits)
  else .finite (f.sign bits) (f.units bits <<< (double.unitExponent - f.unitExponent))

structure Format.Proper (f : Format) : Prop where
  infinity_lt : f.infinity < f.quietNaN
  quietNaN_lt : f.quietNaN < f.signPlace
  unit_le : f.unitExponent ≤ double.unitExponent

-- Every number of the first format has no more digits than the second one keeps, and is in its range.
structure Format.Widens (f g : Format) : Prop where
  digits : f.fractionBits ≤ g.fractionBits
  finer : f.unitExponent + g.fractionBits ≤ g.unitExponent
  reaches : f.top + (g.unitExponent - f.unitExponent) ≤ g.top

theorem proper_half : half.Proper := ⟨by decide, by decide, by decide⟩

theorem proper_single : single.Proper := ⟨by decide, by decide, by decide⟩

theorem proper_double : double.Proper := ⟨by decide, by decide, by decide⟩

theorem widens_half : half.Widens double := ⟨by decide, by decide, by decide⟩

theorem widens_single : single.Widens double := ⟨by decide, by decide, by decide⟩

namespace Format

variable {f g : Format} {x y : Nat}

theorem Proper.infinity_lt_signPlace (proper : f.Proper) : f.infinity < f.signPlace :=
  Nat.lt_trans proper.infinity_lt proper.quietNaN_lt

theorem Proper.parts (proper : f.Proper) (bits : Nat) :
    ∃ s x, x < f.signPlace ∧ bits = s * f.signPlace + x :=
  ⟨_, _, Nat.mod_lt bits (Nat.zero_lt_of_lt proper.quietNaN_lt), (Nat.div_add_mod' bits f.signPlace).symm⟩

theorem number_nan (below : x < f.signPlace) (nan : f.infinity < x) (s : Nat) :
    f.number (s * f.signPlace + x) = .notANumber := by
  rw [number, isNaN_sign_add below, decide_eq_true nan, if_pos rfl]

theorem number_infinity (proper : f.Proper) (s : Nat) :
    f.number (s * f.signPlace + f.infinity) = .infinite s := by
  have below := proper.infinity_lt_signPlace
  rw [number, isNaN_sign_add below, exponent_sign_add below, exponent_infinity below, sign_add below,
    decide_eq_false (Nat.lt_irrefl _), if_neg Bool.false_ne_true, if_pos rfl]

theorem number_finite (finite : x < f.infinity) (s : Nat) :
    f.number (s * f.signPlace + x) = .finite s (f.units x <<< (double.unitExponent - f.unitExponent)) := by
  have below := Nat.lt_of_lt_of_le finite f.infinity_le_signPlace
  rw [number, isNaN_sign_add below, exponent_sign_add below, units_sign_add below, sign_add below,
    decide_eq_false (Nat.not_lt.mpr (Nat.le_of_lt finite)), if_neg Bool.false_ne_true,
    if_neg (exponent_ne_top finite)]

theorem number_eq_notANumber {bits : Nat} : f.number bits = .notANumber ↔ f.isNaN bits = true := by
  rw [number]
  split
  · exact iff_of_true rfl ‹_›
  · refine iff_of_false ?_ ‹_›
    split <;> exact Number.noConfusion

theorem isNaN_congr (same : f.number x = g.number y) : f.isNaN x = g.isNaN y := by
  rw [Bool.eq_iff_iff, ← number_eq_notANumber, ← number_eq_notANumber, same]

theorem Widens.units_nearest (widens : f.Widens g) (finite : x < f.infinity) :
    let count := f.units x <<< (g.unitExponent - f.unitExponent)
    g.nearest (count <<< f.unitExponent) f.unitExponent < g.infinity ∧
      g.units (g.nearest (count <<< f.unitExponent) f.unitExponent) = count := by
  obtain ⟨digits, finer, reaches⟩ := widens
  have fraction := Nat.mod_lt x (Nat.two_pow_pos f.fractionBits)
  have exponent : x / 2 ^ f.fractionBits < f.top := by
    rw [Nat.div_lt_iff_lt_mul (Nat.two_pow_pos _), ← Nat.shiftLeft_eq]
    exact finite
  rw [units_of_finite finite]
  generalize x % 2 ^ f.fractionBits = r at fraction
  generalize x / 2 ^ f.fractionBits = e at exponent
  dsimp only
  rw [Nat.shiftLeft_eq _ (g.unitExponent - f.unitExponent)]
  split
  · rcases Nat.eq_zero_or_pos r with rfl | positive
    · have infinity : 0 < g.infinity := by
        rw [Format.infinity, Nat.shiftLeft_eq]
        exact Nat.mul_pos (by omega) (Nat.two_pow_pos _)
      have zero : g.units 0 = 0 := by
        rw [units_of_finite infinity, Nat.zero_div, Nat.zero_mod, if_pos rfl]
      have kept := nearest_units infinity f.unitExponent
      rw [zero] at kept
      rw [Nat.zero_mul, kept]
      exact ⟨infinity, zero⟩
    · have small := (Nat.log2_lt (Nat.ne_of_gt positive)).mpr fraction
      exact units_nearest_of_digits (Nat.ne_of_gt positive) (by omega) (by omega) (by omega) _
  · have positive : 2 ^ f.fractionBits + r ≠ 0 := by have := Nat.two_pow_pos f.fractionBits; omega
    have full : (2 ^ f.fractionBits + r).log2 = f.fractionBits :=
      (Nat.log2_eq_iff positive).mpr ⟨by omega, by rw [Nat.pow_succ]; omega⟩
    rw [Nat.mul_assoc, ← Nat.pow_add]
    exact units_nearest_of_digits positive (by omega) (by omega) (by omega) _

end Format

section
variable {f g : Format} {x y : Nat}

theorem convert_lt (proper : f.Proper) (proper' : g.Proper) (small : x < 2 * f.signPlace) :
    convert f g x < 2 * g.signPlace := by
  obtain ⟨s, a, below, rfl⟩ := proper.parts x
  have sign : s < 2 := Nat.lt_of_mul_lt_mul_right (Nat.lt_of_le_of_lt (Nat.le_add_right _ a) small)
  have bound : ∀ b < g.signPlace, s * g.signPlace + b < 2 * g.signPlace := by
    intro b small
    have := Nat.mul_le_mul_right g.signPlace (Nat.le_of_lt_succ sign)
    omega
  rcases Nat.lt_trichotomy a f.infinity with finite | rfl | nan
  · rw [convert_finite finite]
    exact bound _ (Nat.lt_of_le_of_lt (Nat.min_le_left _ _) proper'.infinity_lt_signPlace)
  · rw [convert_infinity below]
    exact bound _ proper'.infinity_lt_signPlace
  · rw [convert_nan below nan]
    exact bound _ proper'.quietNaN_lt

theorem number_convert (proper : f.Proper) (proper' : g.Proper) (widens : f.Widens g) (x : Nat) :
    g.number (convert f g x) = f.number x := by
  obtain ⟨s, a, below, rfl⟩ := proper.parts x
  rcases Nat.lt_trichotomy a f.infinity with finite | rfl | nan
  · have finer := widens.finer
    have unit' := proper'.unit_le
    obtain ⟨kept, units⟩ := widens.units_nearest finite
    have scaled : f.units a <<< g.unitExponent =
        f.units a <<< (g.unitExponent - f.unitExponent) <<< f.unitExponent := by
      rw [← Nat.shiftLeft_add]
      congr 1
      omega
    rw [convert_finite finite, scaled, Format.number_finite kept, units, Format.number_finite finite,
      ← Nat.shiftLeft_add]
    congr 2
    omega
  · rw [convert_infinity below, Format.number_infinity proper', Format.number_infinity proper]
  · rw [convert_nan below nan, Format.number_nan proper'.quietNaN_lt proper'.infinity_lt,
      Format.number_nan below nan]

theorem convert_of_number (proper : f.Proper) (proper' : g.Proper) (number : f.isNaN x = false)
    (same : f.number x = g.number y) : convert g f y = x := by
  obtain ⟨s, a, below, rfl⟩ := proper.parts x
  obtain ⟨t, b, below', rfl⟩ := proper'.parts y
  rw [Format.isNaN_sign_add below, decide_eq_false_iff_not, Nat.not_lt] at number
  rcases Nat.lt_trichotomy b g.infinity with finite' | rfl | nan'
  · rw [Format.number_finite finite'] at same
    rcases Nat.lt_or_eq_of_le number with finite | rfl
    · rw [Format.number_finite finite] at same
      obtain ⟨rfl, counts⟩ := Number.finite.inj same
      -- Both sides are the count of the number in units of doubles, times one power of two.
      have units : g.units b <<< f.unitExponent = f.units a <<< g.unitExponent := by
        have unit := proper.unit_le
        have unit' := proper'.unit_le
        have both := congrArg (· <<< (f.unitExponent + g.unitExponent)) counts
        simp only [← Nat.shiftLeft_add] at both
        rw [show double.unitExponent - f.unitExponent + (f.unitExponent + g.unitExponent) =
            g.unitExponent + double.unitExponent by omega,
          show double.unitExponent - g.unitExponent + (f.unitExponent + g.unitExponent) =
            f.unitExponent + double.unitExponent by omega, Nat.shiftLeft_add, Nat.shiftLeft_add,
          Nat.shiftLeft_eq _ double.unitExponent, Nat.shiftLeft_eq _ double.unitExponent] at both
        exact (Nat.eq_of_mul_eq_mul_right (Nat.two_pow_pos _) both).symm
      rw [convert_finite finite', units, Format.nearest_units finite]
    · rw [Format.number_infinity proper] at same
      cases same
  · rw [Format.number_infinity proper'] at same
    rcases Nat.lt_or_eq_of_le number with finite | rfl
    · rw [Format.number_finite finite] at same
      cases same
    · rw [Format.number_infinity proper] at same
      cases same
      exact convert_infinity below' s
  · rw [Format.number_nan below' nan', Format.number_eq_notANumber, Format.isNaN_sign_add below,
      decide_eq_true_iff] at same
    exact absurd same (Nat.not_lt.mpr number)

theorem Format.eq_of_number (proper : f.Proper) (number : f.isNaN x = false) (same : f.number x = f.number y) :
    x = y :=
  (convert_of_number proper proper number same).symm.trans
    (convert_of_number proper proper (Format.isNaN_congr same ▸ number) rfl)

theorem isNaN_convert (proper : f.Proper) (proper' : g.Proper) (nan : f.isNaN x = true) :
    g.isNaN (convert f g x) = true := by
  obtain ⟨s, a, below, rfl⟩ := proper.parts x
  rw [Format.isNaN_sign_add below, decide_eq_true_iff] at nan
  rw [convert_nan below nan, Format.isNaN_sign_add proper'.quietNaN_lt, decide_eq_true proper'.infinity_lt]

end

theorem toNat_doubleOfHalf (bits : UInt16) : (doubleOfHalf bits).toNat = convert half double bits.toNat :=
  UInt64.toNat_ofNat_of_lt' (convert_lt proper_half proper_double bits.toNat_lt)

theorem toNat_doubleOfSingle (bits : UInt32) : (doubleOfSingle bits).toNat = convert single double bits.toNat :=
  UInt64.toNat_ofNat_of_lt' (convert_lt proper_single proper_double bits.toNat_lt)

theorem toNat_singleOfDouble (bits : UInt64) : (singleOfDouble bits).toNat = convert double single bits.toNat :=
  UInt32.toNat_ofNat_of_lt' (convert_lt proper_double proper_single bits.toNat_lt)

theorem number_doubleOfHalf (bits : UInt16) :
    double.number (doubleOfHalf bits).toNat = half.number bits.toNat := by
  rw [toNat_doubleOfHalf, number_convert proper_half proper_double widens_half]

theorem number_doubleOfSingle (bits : UInt32) :
    double.number (doubleOfSingle bits).toNat = single.number bits.toNat := by
  rw [toNat_doubleOfSingle, number_convert proper_single proper_double widens_single]

theorem halfOfDouble_of_number {narrow : UInt16} {bits : UInt64} (number : half.isNaN narrow.toNat = false)
    (same : half.number narrow.toNat = double.number bits.toNat) : halfOfDouble bits = narrow := by
  rw [halfOfDouble, convert_of_number proper_half proper_double number same, UInt16.ofNat_toNat]

theorem singleOfDouble_of_number {narrow : UInt32} {bits : UInt64} (number : single.isNaN narrow.toNat = false)
    (same : single.number narrow.toNat = double.number bits.toNat) : singleOfDouble bits = narrow := by
  rw [singleOfDouble, convert_of_number proper_single proper_double number same, UInt32.ofNat_toNat]

theorem isNaN_doubleOfSingle (bits : UInt32) :
    isNaN (doubleOfSingle bits) = single.isNaN bits.toNat :=
  Format.isNaN_congr (number_doubleOfSingle bits)

theorem singleOfDouble_doubleOfSingle {bits : UInt32} (number : single.isNaN bits.toNat = false) :
    singleOfDouble (doubleOfSingle bits) = bits :=
  singleOfDouble_of_number number (number_doubleOfSingle bits).symm

theorem isNaN_singleOfDouble {bits : UInt64} (nan : isNaN bits = true) :
    single.isNaN (singleOfDouble bits).toNat = true := by
  rw [toNat_singleOfDouble]
  exact isNaN_convert proper_double proper_single nan

end TypedCbor.Ieee
