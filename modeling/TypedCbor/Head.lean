import TypedCbor.Bytes

namespace TypedCbor

inductive Major where
  | unsigned
  | negative
  | bytes
  | text
  | array
  | map
  | tag
  | simple
  deriving DecidableEq, Repr

namespace Major

def code : Major → Nat
  | unsigned => 0
  | negative => 1
  | bytes => 2
  | text => 3
  | array => 4
  | map => 5
  | tag => 6
  | simple => 7

def ofCode : Nat → Major
  | 0 => unsigned
  | 1 => negative
  | 2 => bytes
  | 3 => text
  | 4 => array
  | 5 => map
  | 6 => tag
  | _ => simple

def name : Major → String
  | unsigned => "unsigned integer"
  | negative => "negative integer"
  | bytes => "byte string"
  | text => "text string"
  | array => "array"
  | map => "map"
  | tag => "tag"
  | simple => "simple value"

def ofInitial (initial : UInt8) : Major := ofCode (initial.toNat / 32)

def initial (major : Major) (info : Nat) : UInt8 := UInt8.ofNat (32 * major.code + info)

def hasIndefinite : Major → Bool
  | bytes | text | array | map | simple => true
  | unsigned | negative | tag => false

theorem ofCode_code (major : Major) : ofCode major.code = major := by cases major <;> rfl

theorem code_lt (major : Major) : major.code < 8 := by cases major <;> decide

theorem ofInitial_initial (major : Major) {info : Nat} (small : info < 32) :
    ofInitial (major.initial info) = major := by
  have bound := major.code_lt
  rw [ofInitial, initial, UInt8.toNat_ofNat',
    show (32 * major.code + info) % 2 ^ 8 / 32 = major.code by omega, ofCode_code]

theorem initial_info (major : Major) {info : Nat} (small : info < 32) :
    (major.initial info).toNat % 32 = info := by
  have bound := major.code_lt
  rw [initial, UInt8.toNat_ofNat']
  omega

end Major

-- What an initial byte says of the argument: a number, or that the length is open. The break
-- byte has the form of an open length of major type seven.
inductive Argument where
  | value (n : UInt64)
  | indefinite
  deriving DecidableEq, Repr

structure Header where
  initial : UInt8
  argument : Argument
  deriving DecidableEq, Repr

namespace Header

def major (header : Header) : Major := Major.ofInitial header.initial

def info (header : Header) : Nat := header.initial.toNat % 32

def length (header : Header) : Option Nat :=
  match header.argument with
  | .value n => some n.toNat
  | .indefinite => none

end Header

def breakByte : UInt8 := 0xff
def nullByte : UInt8 := 0xf6
def undefinedByte : UInt8 := 0xf7
def emptyMapByte : UInt8 := 0xa0

def falseInfo : Nat := 20
def trueInfo : Nat := 21
def halfInfo : Nat := 25
def singleInfo : Nat := 26
def doubleInfo : Nat := 27

def indefiniteInfo : Nat := 31

def Header.isBreak (header : Header) : Bool := header.initial == breakByte

end TypedCbor
