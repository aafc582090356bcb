import TypedCbor.Bytes

namespace TypedCbor.Text

def hexDigit (n : Nat) : Char := Char.ofNat (if n < 10 then 48 + n else 87 + n)

def hexValue? (byte : UInt8) : Option Nat :=
  let n := byte.toNat
  if 48 ≤ n ∧ n ≤ 57 then some (n - 48)
  else if 65 ≤ n ∧ n ≤ 70 then some (n - 55)
  else if 97 ≤ n ∧ n ≤ 102 then some (n - 87)
  else none

def hexNumber (n : Nat) : String := String.ofList (Nat.toDigits 16 n)

def hexByte (byte : UInt8) : List Char := [hexDigit (byte.toNat / 16), hexDigit (byte.toNat % 16)]

def hex (bytes : Bytes) : String := String.ofList (bytes.flatMap hexByte)

-- A bad digit is reported as the character with the byte's value, not as the character of the text
-- that the byte may be a part of.
inductive HexError where
  | oddLength
  | invalidDigit (byte : UInt8) (position : Nat)
  deriving DecidableEq, Repr

def hexValue (byte : UInt8) (position : Nat) : Except HexError Nat :=
  match hexValue? byte with
  | some n => .ok n
  | none => .error (.invalidDigit byte position)

def pairs (position : Nat) : Bytes → Except HexError Bytes
  | high :: low :: rest => do
    let h ← hexValue high position
    let l ← hexValue low (position + 1)
    let bytes ← pairs (position + 2) rest
    return UInt8.ofNat (16 * h + l) :: bytes
  | _ => .ok []

-- Reads hexadecimal text; an odd length is noticed before any bad digit.
def ofHex (text : String) : Except HexError Bytes :=
  let digits := Bytes.ofText text
  if digits.length % 2 = 1 then .error .oddLength else pairs 0 digits

end TypedCbor.Text
