import TypedCbor.Config
import TypedCbor.Cursor.Skip

namespace TypedCbor

-- The input that is left and what the next item is to be read with: the element it is the value of,
-- and tags that were read ahead of it. Both serve that one item.
structure Decoder where
  rest : Bytes
  field : Option Element := none
  pendingTags : List UInt64 := []
  deriving DecidableEq

abbrev DecodeM := EStateM Error Decoder

-- A structure being read: how many elements (of maps, entries) are left if it said so in advance,
-- and how many were announced.
structure OpenStructure where
  shape : Shape
  remaining : Option Nat
  index : Nat := 0
  deriving DecidableEq

namespace OpenStructure

def isDefinite (s : OpenStructure) : Bool := s.remaining.isSome

def isAtValue (s : OpenStructure) : Bool := s.shape.kind == .map && s.index % 2 == 1

-- Goes on to the next element. A map's count is of entries, so its values do not lower it.
def advanced (s : OpenStructure) : OpenStructure :=
  { s with
    remaining := if s.isAtValue then s.remaining else s.remaining.map (· - 1)
    index := s.index + 1 }

end OpenStructure

def Shape.header (shape : Shape) : Major × String :=
  if shape.kind == .map || shape.hasKeys then (.map, "map") else (.array, "array")

namespace Decoder

def cursor (read : ReadM α) : DecodeM α := fun decoder =>
  match read decoder.rest with
  | .ok a rest => .ok a { decoder with rest }
  | .error e rest => .error e { decoder with rest }

def ofExcept (result : Except Error α) : DecodeM α := fun decoder =>
  match result with
  | .ok a => .ok a decoder
  | .error e => .error e decoder

def clearField : DecodeM Unit := modify fun decoder => { decoder with field := none }

def readAhead : DecodeM Unit := do
  let tags ← cursor Cursor.readTags
  modify fun decoder => { decoder with pendingTags := decoder.pendingTags ++ tags }

-- Takes the tags of the next item, with those read ahead, and the field it belongs to. The tags that
-- the field declares are checked and split off; what is left is the item's own.
def takeTags (config : Config) : DecodeM (List UInt64) := do
  readAhead
  let decoder ← get
  set { decoder with pendingTags := [], field := none }
  let found := decoder.pendingTags
  match decoder.field with
  | some element =>
    if config.verifyValueTags then
      match element.valueTags.isPrefixOf? found with
      | some own => return own
      | none => throw (.tagMismatch element.valueTags found)
    else return found
  | none => return found

def readHeader (config : Config) : DecodeM (Header × List UInt64) := do
  let own ← takeTags config
  return (← cursor Cursor.readHeader, own)

def readPlainHeader (config : Config) : DecodeM Header := return (← readHeader config).1

-- The structure that a header opens, if it is the one the shape calls for behind the tags it calls
-- for. The item's own tags may have others in front of the shape's.
def opened (config : Config) (shape : Shape) (header : Header) (own : List UInt64) :
    Except Error OpenStructure :=
  let misframed :=
    match shape.arrayTags with
    | some tags => if config.verifyValueTags && !tags.isSuffixOf own then some tags else none
    | none => none
  match misframed with
  | some tags => .error (.tagMismatch tags own)
  | none =>
    if header.major = shape.header.1 then .ok ⟨shape, header.length, 0⟩
    else .error (header.unexpected shape.header.2)

def beginStructure (config : Config) (shape : Shape) : DecodeM OpenStructure := do
  let (header, own) ← readHeader config
  ofExcept (opened config shape header own)

def isExhausted (s : OpenStructure) : ReadM Bool :=
  if s.isAtValue then return false
  else
    match s.remaining with
    | some count => return count == 0
    | none => return (← Cursor.peek) == breakByte

def readKey : ReadM Key := do
  let header ← Cursor.readHeader
  match header.major with
  | .unsigned | .negative =>
    match header.integer with
    | .ok n => return .label n
    | .error e => throw e
  | .text =>
    match (← Cursor.readPayload header).text with
    | .ok name => return .name name.text
    | .error e => throw e
  | _ => throw (header.unexpected "label or name")

-- Announces the next element of a structure without keys: its position. Only an array-framed record
-- knows more of an element than that.
def nextByPosition (s : OpenStructure) : DecodeM (Option Nat × OpenStructure) := do
  if ← cursor (isExhausted s) then
    clearField
    return (none, s)
  else
    let field := if s.shape.isArrayFramed then some (s.shape.element s.index) else none
    modify fun decoder => { decoder with field }
    return (some s.index, s.advanced)

def acceptsKeyTags (config : Config) (element : Element) (tags : List UInt64) : Bool :=
  !config.verifyKeyTags || element.keyTags.isEmpty || tags == element.keyTags

-- Announces the next element of a structure with keys, whose key is read and resolved. An entry that
-- is passed over takes at least two bytes, so there are fewer of them than bytes.
def nextByKey (config : Config) : Nat → OpenStructure → DecodeM (Option Nat × OpenStructure)
  | 0, _ => throw .truncatedInput
  | rounds + 1, s => do
    if ← cursor (isExhausted s) then
      clearField
      return (none, s)
    else
      let tags ← cursor Cursor.readTags
      let key ← cursor readKey
      match key.resolve s.shape with
      | some index =>
        let element := s.shape.element index
        if acceptsKeyTags config element tags then
          modify fun decoder => { decoder with field := some element }
          return (some index, s.advanced)
        else throw (.tagMismatch element.keyTags tags)
      | none =>
        if config.ignoreUnknownKeys then
          cursor Cursor.skipItem
          nextByKey config rounds s.advanced
        else throw (.unknownKey key)

def nextElement (config : Config) (s : OpenStructure) : DecodeM (Option Nat × OpenStructure) := do
  if s.shape.hasKeys then nextByKey config ((← get).rest.length + 1) s else nextByPosition s

def endStructure (s : OpenStructure) : DecodeM Unit := do
  clearField
  match s.remaining with
  | none =>
    if ← cursor Cursor.tryBreak then return ()
    else throw (.unexpectedMajor "break" (← cursor Cursor.peekMajor))
  | some 0 => return ()
  | some unread => throw (.lengthMismatch unread)

def elementRounds (config : Config) (item : DecodeM α) :
    Nat → OpenStructure → DecodeM (List α × OpenStructure)
  | 0, _ => throw .truncatedInput
  | rounds + 1, s => do
    match ← nextElement config s with
    | (none, s) => return ([], s)
    | (some _, s) =>
      let a ← item
      let (rest, s) ← elementRounds config item rounds s
      return (a :: rest, s)

def readElements (config : Config) (item : DecodeM α) (s : OpenStructure) :
    DecodeM (List α × OpenStructure) := do
  elementRounds config item ((← get).rest.length + 1) s

def readInteger (config : Config) : DecodeM Int := do ofExcept (← readPlainHeader config).integer

def readFloat (config : Config) : DecodeM UInt64 := do ofExcept (← readPlainHeader config).float

def readBool (config : Config) : DecodeM Bool := do ofExcept (← readPlainHeader config).boolean

def readText (config : Config) : DecodeM TextPayload := do
  let header ← readPlainHeader config
  if header.major = .text then ofExcept (← cursor (Cursor.readPayload header)).text
  else throw (header.unexpected "text string")

def readByte (config : Config) : DecodeM UInt8 := do
  let n ← readInteger config
  if 0 ≤ n ∧ n < 256 then return UInt8.ofNat n.toNat else throw .integerOverflow

def readBytes (config : Config) : DecodeM Payload := do
  let (header, own) ← readHeader config
  match header.major with
  | .bytes => cursor (Cursor.readPayload header)
  | .array =>
    let s ← ofExcept (opened config .list header own)
    let (bytes, s) ← readElements config (readByte config) s
    endStructure s
    return ⟨bytes, false⟩
  | _ => throw (header.unexpected "byte string")

-- Consumes a null if one is next. The empty map is the null of an object. Any other item stays, with
-- its tags read ahead.
def readNull (config : Config) : DecodeM Bool := do
  readAhead
  let object := ((← get).field.map (·.object)).getD false
  let initial ← cursor Cursor.peek
  if initial = nullByte ∨ initial = undefinedByte ∨ (initial = emptyMapByte ∧ object) then
    discard (takeTags config)
    discard (cursor Cursor.readByte)
    return true
  else return false

def finish : DecodeM Unit := do
  match (← get).rest.length with
  | 0 => return ()
  | count => throw (.trailingData count)

end Decoder
end TypedCbor
