import TypedCbor.Config

namespace TypedCbor

-- Each open structure collects its body in a frame of its own; closing it puts the header, which
-- may need the count, in front of the body.
structure Frame where
  bytes : Bytes := []
  count : Nat := 0
  deriving DecidableEq, Repr

-- What a descriptor says of the very next value and of nothing inside it.
structure Markers where
  byteString : Bool := false
  object : Bool := false
  deriving DecidableEq, Repr

structure Encoder where
  output : Bytes := []
  -- Frames of the open structures, innermost first.
  stack : List Frame := []
  markers : Markers := {}
  deriving DecidableEq, Repr

abbrev Encoding := Encoder → Except Error Encoder

def Element.markers (element : Element) : Markers := ⟨element.byteString, element.object⟩

def Element.key (config : Config) (element : Element) : Bytes :=
  match element.label with
  | some label => if config.preferLabels then Wire.signed label else Wire.text element.name
  | none => Wire.text element.name

def Element.introduction (config : Config) (shape : Shape) (element : Element) : Bytes :=
  (if shape.hasKeys then
    (if config.writeKeyTags then Wire.tags element.keyTags else []) ++ element.key config
  else []) ++ if config.writeValueTags then Wire.tags element.valueTags else []

def Shape.enclosed (config : Config) (shape : Shape) (frame : Frame) : Bytes :=
  match shape.arrayTags, shape.kind with
  | some tags, _ => Wire.tags tags ++ config.framed .array frame.count frame.bytes
  | none, .list | none, .polymorphic => config.framed .array frame.count frame.bytes
  | none, .map => config.framed .map (frame.count / 2) frame.bytes
  | none, .keyed => config.framed .map frame.count frame.bytes

namespace Encoder

def depth (encoder : Encoder) : Nat := encoder.stack.length

def append (encoder : Encoder) (bytes : Bytes) : Encoder :=
  match encoder.stack with
  | [] => { encoder with output := encoder.output ++ bytes }
  | frame :: outer => { encoder with stack := { frame with bytes := frame.bytes ++ bytes } :: outer }

def unmarked (encoder : Encoder) : Encoder := { encoder with markers := {} }

-- Writes a whole item, which uses the markers up.
def put (encoder : Encoder) (item : Bytes) : Encoder := encoder.unmarked.append item

def putWide (encoder : Encoder) (n : Int) : Except Error Encoder := return encoder.put (← Wire.wide n)

-- The null of an object is the empty map.
def putNull (encoder : Encoder) : Encoder :=
  encoder.put (if encoder.markers.object then Wire.emptyMap else Wire.null)

def beginStructure (encoder : Encoder) : Encoder := { encoder with stack := {} :: encoder.stack }

def countElement (encoder : Encoder) : Encoder :=
  match encoder.stack with
  | [] => encoder
  | frame :: outer => { encoder with stack := { frame with count := frame.count + 1 } :: outer }

def announce (config : Config) (shape : Shape) (element : Element) (encoder : Encoder) : Encoder :=
  { (encoder.append (element.introduction config shape)).countElement with markers := element.markers }

def offer (config : Config) (shape : Shape) (element : Element) (isDefault : Bool)
    (encoder : Encoder) : Bool × Encoder :=
  if isDefault && !config.encodeDefaults then (false, encoder)
  else (true, encoder.announce config shape element)

def endStructure (config : Config) (shape : Shape) (encoder : Encoder) : Except Error Encoder :=
  match encoder.stack with
  | [] => .error (.unsupported .endWithoutBeginning)
  | frame :: outer => .ok (append { encoder with stack := outer } (shape.enclosed config frame))

def finish (encoder : Encoder) : Except Error Bytes :=
  if encoder.stack.isEmpty then .ok encoder.output
  else .error (.unsupported (.structuresOpen encoder.depth))

def detached (element : Element) (write : Encoding) (encoder : Encoder) :
    Except Error (Bytes × Encoder) := do
  let written ← write { encoder.beginStructure with markers := element.markers }
  match written.stack with
  | [] => return ([], written.unmarked)
  | aside :: outer => return (aside.bytes, { written with stack := outer, markers := {} })

-- Whether a field holds its default is seen from its bytes, so those are made before its key.
def field (config : Config) (shape : Shape) (element : Element) (write : Encoding) : Encoding :=
  fun encoder =>
    match element.declaredDefault, config.encodeDefaults with
    | some value, false => do
      let (bytes, encoder) ← encoder.detached element write
      let (present, encoder) :=
        encoder.offer config shape element (bytes == value.encoded config element)
      return if present then encoder.put bytes else encoder
    | _, _ => write (encoder.announce config shape element)

def openVariant (config : Config) (name : String) (encoder : Encoder) : Encoder :=
  ((encoder.unmarked.beginStructure.announce config .polymorphic .anonymous).put
    (Wire.text name)).announce config .polymorphic .anonymous

def next (config : Config) (shape : Shape) (encoder : Encoder) : Encoder :=
  encoder.announce config shape .anonymous

end Encoder
end TypedCbor
