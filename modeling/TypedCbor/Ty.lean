import TypedCbor.Error
import TypedCbor.Value

namespace TypedCbor

structure Field (τ : Type) where
  name : String
  type : τ
  -- What the field holds when the document leaves it out.
  fallback : Option Value

inductive Content (τ : Type) where
  | unit
  | newtype (type : τ)
  | tuple (types : List τ)
  | record (fields : List (Field τ))

structure Variant (τ : Type) where
  name : String
  content : Content τ

inductive Ty where
  | bool
  | int (kind : IntKind)
  | single
  | double
  | char
  | text
  -- A text that can only point into the input.
  | textSlice
  | bytes
  -- A byte string that can only point into the input.
  | bytesSlice
  | unit
  | unitStruct (name : String)
  | option (type : Ty)
  | seq (type : Ty)
  | tuple (types : List Ty)
  | tupleStruct (name : String) (types : List Ty)
  | newtype (name : String) (type : Ty)
  | map (key value : Ty)
  | record (name : String) (fields : List (Field Ty))
  | enumeration (name : String) (variants : List (Variant Ty))
  -- A value inside a byte string that holds its encoding.
  | embedded (type : Ty)
  -- A type that is unfolded when it is reached, so that types may refer to themselves.
  | delayed (type : Unit → Ty)
  | any
  | identifier
  | ignored

namespace Ty

def isOption : Ty → Bool
  | option _ => true
  | delayed type => (type ()).isOption
  | _ => false

def expectation : Ty → String
  | bool => "a boolean"
  | int kind => kind.name
  | single => "f32"
  | double => "f64"
  | char => "a character"
  | text => "a string"
  | textSlice => "a borrowed string"
  | bytes => "byte array"
  | bytesSlice => "a borrowed byte array"
  | unit => "unit"
  | unitStruct name => "unit struct " ++ name
  | option _ => "option"
  | seq _ => "a sequence"
  | tuple types => "a tuple of size " ++ toString types.length
  | tupleStruct name _ | newtype name _ => "tuple struct " ++ name
  | map .. => "a map"
  | record name _ => "struct " ++ name
  | enumeration name _ => "enum " ++ name
  | embedded _ => "a byte string holding an encoded value"
  | delayed type => (type ()).expectation
  | any | identifier | ignored => "anything"

end Ty

end TypedCbor
