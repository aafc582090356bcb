import TypedCbor.Decoder
import TypedCbor.Value

namespace TypedCbor

-- How one place of a sequence is filled, by a reader of items or from a byte.
structure Slot (ρ : Type) where
  read : ρ
  ofByte : UInt8 → Except Error Value

def Error.length (found : Nat) (expected : String) : Error := .mismatch (.invalidLength found expected)

namespace Decoder

def entryRounds (config : Config) (key : DecodeM α) (value : DecodeM β) :
    Nat → OpenStructure → DecodeM (List (α × β) × OpenStructure)
  | 0, _ => throw .truncatedInput
  | rounds + 1, s => do
    match ← nextElement config s with
    | (none, s) => return ([], s)
    | (some _, s) =>
      let k ← key
      match ← nextElement config s with
      | (none, _) => throw (.malformedHeader breakByte)
      | (some _, s) =>
        let v ← value
        let (rest, s) ← entryRounds config key value rounds s
        return ((k, v) :: rest, s)

def readEntries (config : Config) (key : DecodeM α) (value : DecodeM β) (s : OpenStructure) :
    DecodeM (List (α × β) × OpenStructure) := do
  entryRounds config key value ((← get).rest.length + 1) s

def fillFromBytes (expected : String) (filled : Nat) :
    List (Slot ρ) → Bytes → Except Error (List Value × Bytes)
  | [], bytes => .ok ([], bytes)
  | _ :: _, [] => .error (.length filled expected)
  | slot :: slots, byte :: bytes => do
    let value ← slot.ofByte byte
    let (values, rest) ← fillFromBytes expected (filled + 1) slots bytes
    return (value :: values, rest)

def fillFromElements (config : Config) (expected : String) (filled : Nat) :
    List (Slot (DecodeM Value)) → OpenStructure → DecodeM (List Value × OpenStructure)
  | [], s => return ([], s)
  | slot :: slots, s => do
    match ← nextElement config s with
    | (none, _) => throw (.length filled expected)
    | (some _, s) =>
      let value ← slot.read
      let (values, s) ← fillFromElements config expected (filled + 1) slots s
      return (value :: values, s)

-- A tuple that is filled before the byte string ends leaves bytes that nothing takes.
def tupleOfBytes (expected : String) (slots : List (Slot ρ)) (bytes : Bytes) :
    Except Error (List Value) := do
  let (values, rest) ← fillFromBytes expected 0 slots bytes
  if rest.isEmpty then return values
  else throw (.length bytes.length (counted slots.length "element" ++ " in sequence"))

def readSequence (config : Config) (ofBytes : Bytes → Except Error (List Value))
    (ofElements : OpenStructure → DecodeM (List Value × OpenStructure)) : DecodeM (List Value) := do
  let (header, own) ← readHeader config
  if header.major = .bytes then
    let payload ← cursor (Cursor.readPayload header)
    ofExcept (ofBytes payload.bytes)
  else
    let s ← ofExcept (opened config .list header own)
    let (values, s) ← ofElements s
    endStructure s
    return values

def readMany (config : Config) (slot : Slot (DecodeM Value)) : DecodeM (List Value) :=
  readSequence config (·.mapM slot.ofByte) (readElements config slot.read)

def readTuple (config : Config) (expected : String) (slots : List (Slot (DecodeM Value))) :
    DecodeM (List Value) :=
  readSequence config (tupleOfBytes expected slots) (fillFromElements config expected 0 slots)

def readMap (config : Config) (key value : DecodeM Value) : DecodeM (List (Value × Value)) := do
  let s ← beginStructure config .map
  let (entries, s) ← readEntries config key value s
  endStructure s
  return entries

end Decoder
end TypedCbor
