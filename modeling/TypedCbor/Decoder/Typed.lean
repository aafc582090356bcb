import TypedCbor.Decoder.Enumeration
import TypedCbor.Decoder.Record
import TypedCbor.Ty

namespace TypedCbor

@[simp] def Ty.ofByte : Ty → UInt8 → Except Error Value
  | .int kind, byte =>
    if kind.holds byte.toNat then .ok (.int kind byte.toNat)
    else .error (.mismatch (.invalidValue (.byte byte) kind.name))
  | .single, byte => .ok (.single (UInt32.ofNat (Ieee.single.ofNat byte.toNat)))
  | .double, byte => .ok (.double (UInt64.ofNat (Ieee.double.ofNat byte.toNat)))
  | .any, byte | .identifier, byte => .ok (.visited .u64 (.int .u64 byte.toNat))
  | .ignored, _ => .ok (.visited .ignored .unit)
  | .delayed type, byte => (type ()).ofByte byte
  | type, byte => .error (.mismatch (.invalidType (.byte byte) type.expectation))

namespace Decoder

def readInt (config : Config) (kind : IntKind) : DecodeM Value := do
  let n ← readInteger config
  if kind.holds n then return .int kind n else throw .integerOverflow

def readChar (config : Config) : DecodeM Value := do
  let n ← readInteger config
  if n < 0 ∨ IntKind.u32.high ≤ n then throw .integerOverflow
  else if n.toNat.isValidChar then return .char (Char.ofNat n.toNat)
  else throw (.unsupported (.notACharacter n.toNat))

def readTextSlice (config : Config) : DecodeM Value := do
  let payload ← readText config
  if payload.inPlace then return .text payload.text
  else throw (.mismatch (.invalidType (.text payload.text) Ty.textSlice.expectation))

def readBytesSlice (config : Config) : DecodeM Value := do
  let payload ← readBytes config
  if payload.inPlace then return .bytes payload.bytes
  else throw (.mismatch (.invalidType .bytes Ty.bytesSlice.expectation))

def readUnit (config : Config) : DecodeM Value := do
  let header ← readPlainHeader config
  if header.initial = nullByte ∨ header.initial = undefinedByte then return .unit
  else throw (header.unexpected "null")

def readOption (config : Config) (read : DecodeM Value) : DecodeM Value := do
  if ← readNull config then return .none else return .some (← read)

def whole (read : DecodeM α) (input : Bytes) : Except Error α :=
  match (do let a ← read; finish; return a : DecodeM α) { rest := input } with
  | .ok a _ => .ok a
  | .error e _ => .error e

-- The bytes of the string are an input of their own, so nothing of the field outside reaches in and
-- nothing may follow the value inside.
def readEmbedded (config : Config) (read : DecodeM Value) : DecodeM Value := do
  let header ← readPlainHeader config
  if header.major = .bytes then
    match header.length with
    | none => throw (.unsupported .chunkedEmbedding)
    | some length =>
      let bytes ← cursor (Cursor.take length)
      return .embedded (← ofExcept (whole read bytes)) (some bytes)
  else throw (header.unexpected "byte string")

end Decoder

open Decoder

mutual
@[simp] def Ty.read (config : Config) : Ty → DecodeM Value
  | .bool => .bool <$> readBool config
  | .int kind => readInt config kind
  | .single => (.single ∘ Ieee.singleOfDouble) <$> readFloat config
  | .double => .double <$> readFloat config
  | .char => readChar config
  | .text => (.text ∘ TextPayload.text) <$> readText config
  | .textSlice => readTextSlice config
  | .bytes => (.bytes ∘ Payload.bytes) <$> readBytes config
  | .bytesSlice => readBytesSlice config
  | .unit | .unitStruct _ => readUnit config
  | .option type => readOption config (type.read config)
  | .seq type => .seq <$> readMany config ⟨type.read config, type.ofByte⟩
  | .tuple types =>
    .tuple <$> readTuple config ("a tuple of size " ++ toString types.length) (slots config types)
  | .tupleStruct name types =>
    .tuple <$> readTuple config (withElements ("tuple struct " ++ name) types.length)
      (slots config types)
  | .newtype _ type => .newtype <$> type.read config
  | .map key value => .map <$> readMap config (key.read config) (value.read config)
  | .record name fields =>
    readRecord config name ("struct " ++ name) (fieldReaders config fields)
  | .enumeration name variants => readVariant config (variantReaders config name variants)
  | .embedded type => readEmbedded config (type.read config)
  | .delayed type => (type ()).read config
  | .any => readAny config
  | .identifier => textVisit <$> readText config
  | .ignored => readIgnored

def slots (config : Config) : List Ty → List (Slot (DecodeM Value))
  | [] => []
  | type :: types => ⟨type.read config, type.ofByte⟩ :: slots config types

def fieldReaders (config : Config) : List (Field Ty) → List (FieldReader (DecodeM Value))
  | [] => []
  | ⟨name, type, fallback⟩ :: fields =>
    ⟨name, type.read config, fallback, type.isOption⟩ :: fieldReaders config fields

def variantReaders (config : Config) (parent : String) :
    List (Variant Ty) → List (VariantReader (DecodeM Value))
  | [] => []
  | ⟨name, content⟩ :: variants =>
    ⟨name, contentReader config parent name content⟩ :: variantReaders config parent variants

def contentReader (config : Config) (parent name : String) :
    Content Ty → ContentReader (DecodeM Value)
  | .unit => .unit
  | .newtype type => .content "newtype variant" (type.read config)
  | .tuple types =>
    .content "tuple variant"
      (.tuple <$> readTuple config
        (withElements ("tuple variant " ++ parent ++ "::" ++ name) types.length) (slots config types))
  | .record fields =>
    .content "struct variant"
      (readRecord config name ("struct variant " ++ parent ++ "::" ++ name)
        (fieldReaders config fields))
end

end TypedCbor
