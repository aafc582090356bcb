import TypedCbor.Encoder
import TypedCbor.Value

namespace TypedCbor

-- Narrow kinds go through words, wide ones may hold integers that no head can.
def IntKind.item (kind : IntKind) (n : Int) : Except Error Bytes :=
  match kind with
  | .i8 | .i16 | .i32 | .i64 => .ok (Wire.signed (Int64.ofInt n))
  | .u8 | .u16 | .u32 | .u64 => .ok (Wire.unsigned (UInt64.ofNat n.toNat))
  | .i128 | .u128 => Wire.wide n

def Encoder.replay (config : Config) (collected : Bytes) (encoder : Encoder) : Encoder :=
  collected.foldl
    (fun encoder byte => (encoder.next config .list).put (Wire.unsigned byte.toUInt64))
    encoder.beginStructure

mutual
@[simp] def Value.encode (config : Config) : Value → Encoding
  | .bool value, encoder => return encoder.put (Wire.bool value)
  | .int kind n, encoder => return encoder.put (← kind.item n)
  | .single bits, encoder => return encoder.put (Wire.single config.floatForm bits)
  | .double bits, encoder => return encoder.put (Wire.double config.floatForm bits)
  | .char c, encoder => return encoder.put (Wire.unsigned c.val.toUInt64)
  | .text content, encoder => return encoder.put (Wire.text content)
  | .bytes content, encoder => return encoder.put (Wire.bytes content)
  | .unit, encoder | .none, encoder => return encoder.putNull
  | .some value, encoder | .newtype value, encoder | .visited _ value, encoder =>
    value.encode config encoder
  | .seq items, encoder =>
    if encoder.markers.byteString || config.byteStrings then
      collectItems config items [] encoder.unmarked
    else do
      let encoder ← encodeItems config items encoder.unmarked.beginStructure
      encoder.endStructure config .list
  | .tuple items, encoder => do
    let encoder ← encodeItems config items encoder.unmarked.beginStructure
    encoder.endStructure config .list
  | .map entries, encoder => do
    let encoder ← encodeEntries config entries encoder.unmarked.beginStructure
    encoder.endStructure config .map
  | .record name fields, encoder => do
    let shape := config.shape name .keyed []
    let encoder ← encodeFields config shape fields encoder.unmarked.beginStructure
    encoder.endStructure config shape
  | .unitVariant name, encoder => return encoder.put (Wire.text name)
  | .variant name content, encoder => do
    let encoder ← content.encode config (encoder.openVariant config name)
    encoder.endStructure config .polymorphic
  -- The nested encoding starts from nothing, so neither markers nor frames reach into it.
  | .embedded value _, encoder => do
    let nested ← value.encode config {}
    return encoder.put (Wire.bytes (← nested.finish))

def encodeItems (config : Config) : List Value → Encoding
  | [], encoder => .ok encoder
  | item :: rest, encoder => do
    encodeItems config rest (← item.encode config (encoder.next config .list))

-- Collects bytes until a first element that is none; from there on the sequence is an array.
def collectItems (config : Config) : List Value → Bytes → Encoding
  | [], collected, encoder => return encoder.put (Wire.bytes collected)
  | item :: rest, collected, encoder =>
    match item.asByte with
    | some byte => collectItems config rest (collected ++ [byte]) encoder
    | none => do
      let encoder := (encoder.replay config collected).next config .list
      let encoder ← encodeItems config rest (← item.encode config encoder)
      encoder.endStructure config .list

def encodeEntries (config : Config) : List (Value × Value) → Encoding
  | [], encoder => .ok encoder
  | (key, value) :: rest, encoder => do
    let encoder ← key.encode config (encoder.next config .map)
    let encoder ← value.encode config (encoder.next config .map)
    encodeEntries config rest encoder

def encodeFields (config : Config) (shape : Shape) : List (String × Value) → Encoding
  | [], encoder => .ok encoder
  | (name, value) :: rest, encoder => do
    let element := shape.elementNamed name
    encodeFields config shape rest (← encoder.field config shape element (value.encode config))
end

end TypedCbor
