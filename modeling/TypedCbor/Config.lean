import TypedCbor.Wire

namespace TypedCbor

structure Config where
  -- Write fields also when they equal their declared default.
  encodeDefaults : Bool := false
  -- Pass over entries whose key stands for no field.
  ignoreUnknownKeys : Bool := false
  writeKeyTags : Bool := true
  writeValueTags : Bool := true
  verifyKeyTags : Bool := true
  verifyValueTags : Bool := true
  -- Use labels for keys where there are any.
  preferLabels : Bool := true
  -- Write every sequence of bytes as a byte string.
  byteStrings : Bool := false
  definiteLengths : Bool := false
  floatForm : Wire.FloatForm := .fixed
  -- Latest registration first, so that it is the one found.
  descriptors : List Descriptor := []

inductive Flag where
  | encodeDefaults
  | ignoreUnknownKeys
  | writeKeyTags
  | writeValueTags
  | verifyKeyTags
  | verifyValueTags
  | preferLabels
  | byteStrings
  | definiteLengths
  deriving DecidableEq, Repr

namespace Config

def standard (floatForm : Wire.FloatForm) : Config := { floatForm }

def get (config : Config) : Flag → Bool
  | .encodeDefaults => config.encodeDefaults
  | .ignoreUnknownKeys => config.ignoreUnknownKeys
  | .writeKeyTags => config.writeKeyTags
  | .writeValueTags => config.writeValueTags
  | .verifyKeyTags => config.verifyKeyTags
  | .verifyValueTags => config.verifyValueTags
  | .preferLabels => config.preferLabels
  | .byteStrings => config.byteStrings
  | .definiteLengths => config.definiteLengths

def set (config : Config) (flag : Flag) (on : Bool) : Config :=
  match flag with
  | .encodeDefaults => { config with encodeDefaults := on }
  | .ignoreUnknownKeys => { config with ignoreUnknownKeys := on }
  | .writeKeyTags => { config with writeKeyTags := on }
  | .writeValueTags => { config with writeValueTags := on }
  | .verifyKeyTags => { config with verifyKeyTags := on }
  | .verifyValueTags => { config with verifyValueTags := on }
  | .preferLabels => { config with preferLabels := on }
  | .byteStrings => { config with byteStrings := on }
  | .definiteLengths => { config with definiteLengths := on }

def register (config : Config) (descriptor : Descriptor) : Config :=
  { config with descriptors := descriptor :: config.descriptors }

-- The shape of a type: what is registered under its name, else what the type itself tells.
def shape (config : Config) (name : String) (kind : StructureKind) (fields : List String) : Shape :=
  match config.descriptors.find? (·.name == name) with
  | some descriptor => .described descriptor
  | none => .plain kind fields

theorem get_set (config : Config) (flag other : Flag) (on : Bool) :
    (config.set flag on).get other = if flag = other then on else config.get other := by
  cases flag <;> cases other <;> rfl

def framed (config : Config) (major : Major) (count : Nat) (body : Bytes) : Bytes :=
  if config.definiteLengths then Wire.header major (some count) ++ body
  else Wire.header major none ++ body ++ Wire.closing

end Config

-- The bytes a field would have if it held its declared default.
def DeclaredDefault.encoded (config : Config) (element : Element) : DeclaredDefault → Bytes
  | null => if element.object then Wire.emptyMap else Wire.null
  | bool value => Wire.bool value
  | integer value => Wire.signed value
  | single bits => Wire.single config.floatForm bits
  | double bits => Wire.double config.floatForm bits
  | text value => Wire.text value
  | bytes value =>
    if config.byteStrings || element.byteString then Wire.bytes value
    else config.framed .array value.length (value.flatMap fun byte => Wire.unsigned byte.toUInt64)
  | emptyArray => config.framed .array 0 []
  | emptyMap => config.framed .map 0 []

end TypedCbor
