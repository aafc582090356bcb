import TypedCbor.Error
import TypedCbor.Ieee

namespace TypedCbor.Wire

def head (major : Major) (n : UInt64) : Bytes :=
  let v := n.toNat
  if v < 24 then [major.initial v]
  else if v < UInt8.size then major.initial 24 :: Bytes.bigEndian 1 v
  else if v < UInt16.size then major.initial 25 :: Bytes.bigEndian 2 v
  else if v < UInt32.size then major.initial 26 :: Bytes.bigEndian 4 v
  else major.initial 27 :: Bytes.bigEndian 8 v

def count (major : Major) (n : Nat) : Bytes := head major (UInt64.ofNat n)

def unsigned (n : UInt64) : Bytes := head .unsigned n

-- A negative number is stored as its complement, which no word is too small for.
def signed (n : Int64) : Bytes :=
  if 0 ≤ n then head .unsigned n.toUInt64 else head .negative (~~~n).toUInt64

def wide (n : Int) : Except Error Bytes :=
  match n with
  | .ofNat m =>
    if m < UInt64.size then .ok (head .unsigned (UInt64.ofNat m)) else .error (.unsupported (.bignum n))
  | .negSucc m =>
    if m < UInt64.size then .ok (head .negative (UInt64.ofNat m)) else .error (.unsupported (.bignum n))

def bytes (content : Bytes) : Bytes := count .bytes content.length ++ content

def text (content : String) : Bytes :=
  let utf8 := Bytes.ofText content
  count .text utf8.length ++ utf8

def tag (n : UInt64) : Bytes := head .tag n

def tags (ns : List UInt64) : Bytes := ns.flatMap tag

def bool (value : Bool) : Bytes := [Major.simple.initial (if value then trueInfo else falseInfo)]

def null : Bytes := [nullByte]

def emptyMap : Bytes := [emptyMapByte]

def closing : Bytes := [breakByte]

def header (major : Major) : Option Nat → Bytes
  | some n => count major n
  | none => [major.initial indefiniteInfo]

def half (bits : UInt16) : Bytes := Major.simple.initial halfInfo :: Bytes.bigEndian 2 bits.toNat

def fixedSingle (bits : UInt32) : Bytes :=
  Major.simple.initial singleInfo :: Bytes.bigEndian 4 bits.toNat

def fixedDouble (bits : UInt64) : Bytes :=
  Major.simple.initial doubleInfo :: Bytes.bigEndian 8 bits.toNat

def canonicalNaN : UInt16 := 0x7e00

-- The narrowest of the three widths that gives the value back. Off the NaNs two patterns are equal
-- exactly when they are the same value with the same sign, so the patterns are compared.
def compact (bits : UInt64) : Bytes :=
  if Ieee.isNaN bits then half canonicalNaN
  else if Ieee.doubleOfHalf (Ieee.halfOfDouble bits) = bits then half (Ieee.halfOfDouble bits)
  else if Ieee.doubleOfSingle (Ieee.singleOfDouble bits) = bits then
    fixedSingle (Ieee.singleOfDouble bits)
  else fixedDouble bits

inductive FloatForm where
  | fixed
  | shortest
  deriving DecidableEq, Repr

def single (form : FloatForm) (bits : UInt32) : Bytes :=
  match form with
  | .fixed => fixedSingle bits
  | .shortest => compact (Ieee.doubleOfSingle bits)

def double (form : FloatForm) (bits : UInt64) : Bytes :=
  match form with
  | .fixed => fixedDouble bits
  | .shortest => compact bits

end TypedCbor.Wire
