import TypedCbor.Decoder
import TypedCbor.Value

namespace TypedCbor

inductive ContentReader (ρ : Type) where
  | unit
  -- Content of one of the other three forms, which messages call by name.
  | content (form : String) (read : ρ)

structure VariantReader (ρ : Type) where
  name : String
  content : ContentReader ρ

namespace Decoder

def contentOf (variants : List (VariantReader ρ)) (name : String) :
    Except Error (ContentReader ρ) :=
  match variants.find? (·.name == name) with
  | some variant => .ok variant.content
  | none => .error (.mismatch (.unknownVariant name (variants.map (·.name))))

def readBareVariant (config : Config) (variants : List (VariantReader (DecodeM Value))) :
    DecodeM Value := do
  let name := (← readText config).text
  match ← ofExcept (contentOf variants name) with
  | .unit => return .unitVariant name
  | .content form _ => throw (.mismatch (.invalidType .unitVariant form))

def passOver : Option Nat → DecodeM Unit
  | some _ => cursor Cursor.skipItem
  | none => return ()

-- What a pair holds beside the name of a unit variant is passed over.
def readVariantPair (config : Config) (variants : List (VariantReader (DecodeM Value))) :
    DecodeM Value := do
  match ← nextElement config (← beginStructure config .polymorphic) with
  | (none, _) => throw (.unsupported .variantWithoutName)
  | (some _, s) =>
    let name := (← readText config).text
    match ← ofExcept (contentOf variants name) with
    | .unit =>
      let (second, s) ← nextElement config s
      passOver second
      endStructure s
      return .unitVariant name
    | .content _ read =>
      match ← nextElement config s with
      | (none, _) => throw (.unsupported (.variantWithoutValue name))
      | (some _, s) =>
        let value ← read
        endStructure s
        return .variant name value

def readVariant (config : Config) (variants : List (VariantReader (DecodeM Value))) :
    DecodeM Value := do
  readAhead
  match ← cursor Cursor.peekMajor with
  | .text => readBareVariant config variants
  | .array => readVariantPair config variants
  | found => throw (.unexpectedMajor "enum variant" found)

end Decoder
end TypedCbor
