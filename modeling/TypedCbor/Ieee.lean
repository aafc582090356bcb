namespace TypedCbor.Ieee

-- A finite pattern is a whole number of units, the unit being the format's least positive value, so
-- conversions are arithmetic on natural numbers.
structure Format where
  exponentBits : Nat
  fractionBits : Nat
  deriving DecidableEq, Repr

def half : Format := ⟨5, 10⟩
def single : Format := ⟨8, 23⟩
def double : Format := ⟨11, 52⟩

namespace Format

def top (f : Format) : Nat := (1 <<< f.exponentBits) - 1

def unitExponent (f : Format) : Nat := (1 <<< (f.exponentBits - 1)) - 2 + f.fractionBits

def signPlace (f : Format) : Nat := 1 <<< (f.exponentBits + f.fractionBits)

-- The bits below the sign of an infinity; more than these is a NaN.
def infinity (f : Format) : Nat := f.top <<< f.fractionBits

def quietNaN (f : Format) : Nat := f.infinity + 1 <<< (f.fractionBits - 1)

def sign (f : Format) (bits : Nat) : Nat := bits / f.signPlace

def exponent (f : Format) (bits : Nat) : Nat := (bits % f.signPlace) >>> f.fractionBits

def fraction (f : Format) (bits : Nat) : Nat := bits % 1 <<< f.fractionBits

def isNaN (f : Format) (bits : Nat) : Bool := f.infinity < bits % f.signPlace

def units (f : Format) (bits : Nat) : Nat :=
  if f.exponent bits = 0 then f.fraction bits
  else (1 <<< f.fractionBits + f.fraction bits) <<< (f.exponent bits - 1)

end Format

-- The whole number nearest to `n / 2 ^ shift`, of two the even one.
def halve (n shift : Nat) : Nat :=
  let quotient := n >>> shift
  let twice := 2 * (n % 1 <<< shift)
  if 1 <<< shift < twice ∨ (twice = 1 <<< shift ∧ quotient % 2 = 1) then quotient + 1 else quotient

-- Past the first binade each doubling of the value doubles the step between neighbours. Adding the
-- rounded steps to the exponent lets a carry move into the next binade by itself.
-- The pattern nearest to `n / 2 ^ shift` units; infinity if that is out of range.
def Format.nearest (f : Format) (n shift : Nat) : Nat :=
  let step := Nat.log2 (n >>> shift) - f.fractionBits
  min f.infinity (step <<< f.fractionBits + halve n (shift + step))

def Format.ofNat (f : Format) (n : Nat) : Nat := f.nearest (n <<< f.unitExponent) 0

def convert (source target : Format) (bits : Nat) : Nat :=
  source.sign bits * target.signPlace +
    if source.isNaN bits then target.quietNaN
    else if source.exponent bits = source.top then target.infinity
    else target.nearest (source.units bits <<< target.unitExponent) source.unitExponent

def doubleOfHalf (bits : UInt16) : UInt64 := UInt64.ofNat (convert half double bits.toNat)

def doubleOfSingle (bits : UInt32) : UInt64 := UInt64.ofNat (convert single double bits.toNat)

def halfOfDouble (bits : UInt64) : UInt16 := UInt16.ofNat (convert double half bits.toNat)

def singleOfDouble (bits : UInt64) : UInt32 := UInt32.ofNat (convert double single bits.toNat)

def isNaN (bits : UInt64) : Bool := double.isNaN bits.toNat

end TypedCbor.Ieee
