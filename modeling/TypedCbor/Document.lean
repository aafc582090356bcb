import TypedCbor.Decoder.Typed
import TypedCbor.Device
import TypedCbor.Encoder.Value

namespace TypedCbor.Config

def encode (config : Config) (value : Value) : Except Error Bytes := do
  (← value.encode config {}).finish

def encodeHex (config : Config) (value : Value) : Except Error String :=
  Text.hex <$> config.encode value

def encodeTo (config : Config) (value : Value) (sink : Sink) : Except Error Sink := do
  sink.write (← config.encode value)

def decode (config : Config) (type : Ty) (input : Bytes) : Except Error Value :=
  Decoder.whole (type.read config) input

def decodeHex (config : Config) (type : Ty) (text : String) : Except Error Value :=
  match Text.ofHex text with
  | .ok input => config.decode type input
  | .error cause => .error (.hex cause)

def decodeFrom (config : Config) (type : Ty) (source : Source) : Except Error Value := do
  config.decode type (← source.readToEnd)

end TypedCbor.Config
