import TypedCbor.Error
import TypedCbor.Ieee

namespace TypedCbor

-- The state is the input that is left, so a cursor can neither run past the end nor move back. A
-- failed operation leaves the state as far as it came.
abbrev ReadM := EStateM Error Bytes

-- Content of a string, and whether it lies in the input in one piece.
structure Payload where
  bytes : Bytes
  inPlace : Bool
  deriving DecidableEq, Repr

structure TextPayload where
  text : String
  inPlace : Bool
  deriving DecidableEq, Repr

namespace Cursor

def peek : ReadM UInt8
  | [] => .error .truncatedInput []
  | byte :: rest => .ok byte (byte :: rest)

def readByte : ReadM UInt8
  | [] => .error .truncatedInput []
  | byte :: rest => .ok byte rest

def take (count : Nat) : ReadM Bytes := fun rest =>
  if rest.length < count then .error .truncatedInput rest
  else .ok (rest.take count) (rest.drop count)

theorem take_append (taken rest : Bytes) : take taken.length (taken ++ rest) = .ok taken rest := by
  simp [take]

def tryBreak : ReadM Bool
  | [] => .error .truncatedInput []
  | byte :: rest => if byte = breakByte then .ok true rest else .ok false (byte :: rest)

def peekMajor : ReadM Major := return Major.ofInitial (← peek)

def word (width : Nat) : ReadM Argument :=
  return .value (UInt64.ofNat (Bytes.ofBigEndian (← take width)))

def readArgument (initial : UInt8) : ReadM Argument :=
  let info := initial.toNat % 32
  if info < 24 then return .value (UInt64.ofNat info)
  else
    match info with
    | 24 => word 1
    | 25 => word 2
    | 26 => word 4
    | 27 => word 8
    | 31 =>
      if (Major.ofInitial initial).hasIndefinite then return .indefinite
      else throw (.malformedHeader initial)
    | _ => throw (.malformedHeader initial)

def readHeader : ReadM Header := do
  let initial ← readByte
  return ⟨initial, ← readArgument initial⟩

-- Every round but the last consumes a tag, so there is one round more than there are bytes left.
def tagRounds : Nat → ReadM (List UInt64)
  | 0 => throw .truncatedInput
  | rounds + 1 => do
    if (← peekMajor) = .tag then
      match (← readHeader).argument with
      | .value tag => return tag :: (← tagRounds rounds)
      | .indefinite => tagRounds rounds
    else return []

def readTags : ReadM (List UInt64) := do tagRounds ((← get).length + 1)

-- A chunk is a definite string of the same type; anything else but the break is out of place.
def chunkRounds (major : Major) : Nat → ReadM Bytes
  | 0 => throw .truncatedInput
  | rounds + 1 => do
    let chunk ← readHeader
    if chunk.isBreak then return []
    else
      match chunk.argument with
      | .value length =>
        if chunk.major = major then
          let content ← take length.toNat
          return content ++ (← chunkRounds major rounds)
        else throw (.malformedHeader chunk.initial)
      | .indefinite => throw (.malformedHeader chunk.initial)

def readPayload (header : Header) : ReadM Payload := do
  match header.argument with
  | .value length => return ⟨← take length.toNat, true⟩
  | .indefinite => return ⟨← chunkRounds header.major ((← get).length + 1), false⟩

end Cursor

namespace Header

def unexpected (header : Header) (expected : String) : Error := .unexpectedMajor expected header.major

def integer (header : Header) : Except Error Int :=
  match header.major, header.argument with
  | .unsigned, .value n => .ok n.toNat
  | .negative, .value n => .ok (-1 - n.toNat)
  | _, _ => .error (header.unexpected "integer")

def float (header : Header) : Except Error UInt64 :=
  match header.major, header.argument with
  | .simple, .value n =>
    if header.info = halfInfo then .ok (Ieee.doubleOfHalf n.toUInt16)
    else if header.info = singleInfo then .ok (Ieee.doubleOfSingle n.toUInt32)
    else if header.info = doubleInfo then .ok n
    else .error (header.unexpected "float")
  | _, _ => .error (header.unexpected "float")

def boolean (header : Header) : Except Error Bool :=
  if header.major = .simple ∧ header.info = falseInfo then .ok false
  else if header.major = .simple ∧ header.info = trueInfo then .ok true
  else .error (header.unexpected "boolean")

end Header

def Payload.text (payload : Payload) : Except Error TextPayload :=
  match payload.bytes.toText? with
  | some text => .ok ⟨text, payload.inPlace⟩
  | none => .error .invalidUtf8

end TypedCbor
