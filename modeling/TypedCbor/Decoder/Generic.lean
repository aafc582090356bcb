import TypedCbor.Decoder.Sequence

namespace TypedCbor.Decoder

def textVisit (payload : TextPayload) : Value :=
  .visited (if payload.inPlace then .textInPlace else .textJoined) (.text payload.text)

def bytesVisit (payload : Payload) : Value :=
  .visited (if payload.inPlace then .bytesInPlace else .bytesJoined) (.bytes payload.bytes)

def integerVisit (n : Int) : Value :=
  if 0 ≤ n then .visited .u64 (.int .u64 n)
  else if IntKind.i64.low ≤ n then .visited .i64 (.int .i64 n)
  else .visited .i128 (.int .i128 n)

def readSimple (header : Header) : Except Error Value :=
  if header.initial = nullByte ∨ header.initial = undefinedByte then .ok (.visited .unit .unit)
  else if header.info = falseInfo ∨ header.info = trueInfo then
    (Value.visited .bool ∘ Value.bool) <$> header.boolean
  else if header.info = halfInfo ∨ header.info = singleInfo ∨ header.info = doubleInfo then
    (Value.visited .double ∘ Value.double) <$> header.float
  else .error (.malformedHeader header.initial)

-- The rounds bound the nesting: every level opens with a byte of its own.
def readGeneric (config : Config) : Nat → DecodeM Value
  | 0 => throw .truncatedInput
  | rounds + 1 => do
    let (header, own) ← readHeader config
    match header.major with
    | .unsigned | .negative => return integerVisit (← ofExcept header.integer)
    | .bytes => return bytesVisit (← cursor (Cursor.readPayload header))
    | .text => return textVisit (← ofExcept (← cursor (Cursor.readPayload header)).text)
    | .array =>
      let s ← ofExcept (opened config .list header own)
      let (items, s) ← readElements config (readGeneric config rounds) s
      endStructure s
      return .visited (.seq header.length) (.seq items)
    | .map =>
      let s ← ofExcept (opened config .map header own)
      let (entries, s) ← readEntries config (readGeneric config rounds) (readGeneric config rounds) s
      endStructure s
      return .visited (.map header.length) (.map entries)
    | .simple => ofExcept (readSimple header)
    | .tag => throw (.malformedHeader header.initial)

def readAny (config : Config) : DecodeM Value := do
  readGeneric config ((← get).rest.length + 1)

-- Passes over the next item. Tags read ahead belong to it, and nothing is checked.
def readIgnored : DecodeM Value := do
  modify fun decoder => { decoder with pendingTags := [], field := none }
  cursor Cursor.skipItem
  return .visited .ignored .unit

end TypedCbor.Decoder
