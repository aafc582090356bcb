import TypedCbor.Bytes

namespace TypedCbor

inductive IntKind where
  | i8
  | i16
  | i32
  | i64
  | i128
  | u8
  | u16
  | u32
  | u64
  | u128
  deriving DecidableEq, Repr

namespace IntKind

def all : List IntKind := [i8, i16, i32, i64, i128, u8, u16, u32, u64, u128]

def name : IntKind → String
  | i8 => "i8"
  | i16 => "i16"
  | i32 => "i32"
  | i64 => "i64"
  | i128 => "i128"
  | u8 => "u8"
  | u16 => "u16"
  | u32 => "u32"
  | u64 => "u64"
  | u128 => "u128"

def width : IntKind → Nat
  | i8 | u8 => 8
  | i16 | u16 => 16
  | i32 | u32 => 32
  | i64 | u64 => 64
  | i128 | u128 => 128

def isSigned : IntKind → Bool
  | i8 | i16 | i32 | i64 | i128 => true
  | u8 | u16 | u32 | u64 | u128 => false

def high (kind : IntKind) : Int :=
  (1 <<< if kind.isSigned then kind.width - 1 else kind.width : Nat)

def low (kind : IntKind) : Int := if kind.isSigned then -kind.high else 0

def holds (kind : IntKind) (n : Int) : Bool := kind.low ≤ n && n < kind.high

end IntKind

-- How a target that takes anything was handed an item. Only readers make these; what they annotate
-- is written as if they were not there.
inductive Visit where
  | bool
  | u64
  | i64
  | i128
  | double
  | textInPlace
  | textJoined
  | bytesInPlace
  | bytesJoined
  | unit
  | seq (hint : Option Nat)
  | map (hint : Option Nat)
  | ignored
  deriving DecidableEq, Repr

inductive Value where
  | bool (value : Bool)
  | int (kind : IntKind) (n : Int)
  | single (bits : UInt32)
  | double (bits : UInt64)
  | char (c : Char)
  | text (content : String)
  | bytes (content : Bytes)
  | unit
  | none
  | some (value : Value)
  | newtype (value : Value)
  | seq (items : List Value)
  -- Tuples of every kind: fixed length, never a byte string.
  | tuple (items : List Value)
  | map (entries : List (Value × Value))
  | record (name : String) (fields : List (String × Value))
  | unitVariant (name : String)
  -- The content of a tuple variant is a tuple, that of a struct variant a record of its name.
  | variant (name : String) (content : Value)
  -- A value that travels as a byte string of its own encoding. What was read is kept beside it;
  -- a value that never was read has none.
  | embedded (value : Value) (serialized : Option Bytes)
  | visited (how : Visit) (value : Value)

-- The number of a byte of a byte sequence. Only plain bytes count, not what merely contains one.
def Value.asByte : Value → Option UInt8
  | int .u8 n => Option.some (UInt8.ofNat n.toNat)
  | _ => Option.none

end TypedCbor
