import TypedCbor.Head
import TypedCbor.Shape
import TypedCbor.Text.Quoted

namespace TypedCbor

inductive Unsupported where
  | bignum (n : Int)
  | structuresOpen (count : Nat)
  | endWithoutBeginning
  | notACharacter (codePoint : Nat)
  | chunkedEmbedding
  | variantWithoutName
  | variantWithoutValue (name : String)
  deriving DecidableEq, Repr

inductive Offer where
  | byte (value : UInt8)
  | text (value : String)
  | bytes
  | unitVariant
  deriving DecidableEq, Repr

inductive Mismatch where
  | invalidType (offer : Offer) (expected : String)
  | invalidValue (offer : Offer) (expected : String)
  | invalidLength (length : Nat) (expected : String)
  | duplicateField (name : String)
  | missingField (name : String)
  | unknownVariant (name : String) (known : List String)
  deriving DecidableEq, Repr

inductive DeviceFault where
  | readFailed
  | sinkFull
  deriving DecidableEq, Repr

inductive Error where
  | malformedHeader (initial : UInt8)
  | unexpectedMajor (expected : String) (found : Major)
  | unknownKey (key : Key)
  | tagMismatch (expected found : List UInt64)
  | truncatedInput
  | unsupported (cause : Unsupported)
  | invalidUtf8
  | integerOverflow
  | lengthMismatch (unread : Nat)
  | trailingData (count : Nat)
  | hex (cause : Text.HexError)
  | device (fault : DeviceFault)
  | mismatch (cause : Mismatch)
  deriving DecidableEq, Repr

def counted (count : Nat) (singular : String) : String :=
  toString count ++ " " ++ singular ++ if count = 1 then "" else "s"

def withElements (what : String) (count : Nat) : String := what ++ " with " ++ counted count "element"

def Unsupported.message : Unsupported → String
  | bignum n => "integer " ++ toString n ++ " needs a bignum"
  | structuresOpen count => toString count ++ " structures left open"
  | endWithoutBeginning => "structure ended without a beginning"
  | notACharacter codePoint => "0x" ++ Text.hexNumber codePoint ++ " is not a character"
  | chunkedEmbedding => "embedded CBOR in a chunked byte string"
  | variantWithoutName => "enum variant array without a name"
  | variantWithoutValue name => "enum variant " ++ name ++ " without a value"

def Offer.render : Offer → String
  | byte value => "integer `" ++ toString value.toNat ++ "`"
  | text value => "string " ++ Text.quotedText value
  | bytes => "byte array"
  | unitVariant => "unit variant"

def oneOf : List String → String
  | [] => "there are no variants"
  | [name] => "expected `" ++ name ++ "`"
  | [first, second] => "expected `" ++ first ++ "` or `" ++ second ++ "`"
  | names => "expected one of " ++ ", ".intercalate (names.map fun name => "`" ++ name ++ "`")

def Mismatch.message : Mismatch → String
  | invalidType offer expected => "invalid type: " ++ offer.render ++ ", expected " ++ expected
  | invalidValue offer expected => "invalid value: " ++ offer.render ++ ", expected " ++ expected
  | invalidLength length expected => "invalid length " ++ toString length ++ ", expected " ++ expected
  | duplicateField name => "duplicate field `" ++ name ++ "`"
  | missingField name => "missing field `" ++ name ++ "`"
  | unknownVariant name known => "unknown variant `" ++ name ++ "`, " ++ oneOf known

def DeviceFault.message : DeviceFault → String
  | readFailed => "device failed"
  | sinkFull => "failed to write whole buffer"

def hexErrorMessage : Text.HexError → String
  | .oddLength => "Odd number of digits"
  | .invalidDigit byte position =>
    "Invalid character " ++ Text.quotedChar (Char.ofNat byte.toNat) ++ " at position " ++
      toString position

def renderTags (tags : List UInt64) : String :=
  "[" ++ ", ".intercalate (tags.map fun tag => toString tag.toNat) ++ "]"

def Error.message : Error → String
  | malformedHeader initial => "Malformed CBOR header byte 0x" ++ Text.hex [initial]
  | unexpectedMajor expected found => "Expected " ++ expected ++ ", found " ++ found.name
  | unknownKey key => "Unknown key " ++ key.render
  | tagMismatch expected found =>
    "CBOR tags " ++ renderTags found ++ " do not match declared tags " ++ renderTags expected
  | truncatedInput => "Not enough data for encoded value"
  | unsupported cause => "Unsupported shape: " ++ cause.message
  | invalidUtf8 => "Invalid UTF-8 in text string"
  | integerOverflow => "Integer does not fit the target type"
  | lengthMismatch unread => "Structure ended with " ++ toString unread ++ " unread elements"
  | trailingData count => toString count ++ " trailing bytes after the root value"
  | hex cause => hexErrorMessage cause
  | device fault => "IO error: " ++ fault.message
  | mismatch cause => "Serde error: " ++ cause.message

end TypedCbor
