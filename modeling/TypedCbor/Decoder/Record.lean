import TypedCbor.Decoder.Generic

namespace TypedCbor

structure FieldReader (ρ : Type) where
  name : String
  read : ρ
  -- What the type puts in for the field when it is left out.
  fallback : Option Value
  -- Whether a missing entry means that the field holds nothing.
  optional : Bool

namespace Decoder

def takeFields (config : Config) (expected : String) (taken : Nat) :
    List (FieldReader (DecodeM Value)) → OpenStructure → DecodeM (List (String × Value) × OpenStructure)
  | [], s => return ([], s)
  | field :: rest, s => do
    match ← nextElement config s with
    | (some _, s) =>
      let value ← field.read
      let (values, s) ← takeFields config expected (taken + 1) rest s
      return ((field.name, value) :: values, s)
    | (none, s) =>
      match field.fallback with
      | some value =>
        let (values, s) ← takeFields config expected (taken + 1) rest s
        return ((field.name, value) :: values, s)
      | none => throw (.length taken expected)

def fieldRounds (config : Config) (fields : List (FieldReader (DecodeM Value))) :
    Nat → OpenStructure → List (String × Value) → DecodeM (List (String × Value) × OpenStructure)
  | 0, _, _ => throw .truncatedInput
  | rounds + 1, s, seen => do
    match ← nextElement config s with
    | (none, s) => return (seen, s)
    | (some index, s) =>
      let name := s.shape.elementName index
      match fields.find? (·.name == name) with
      | some field =>
        if (seen.lookup name).isSome then throw (.mismatch (.duplicateField name))
        else
          let value ← field.read
          fieldRounds config fields rounds s ((name, value) :: seen)
      | none =>
        discard readIgnored
        fieldRounds config fields rounds s seen

def FieldReader.complete (seen : List (String × Value)) (field : FieldReader ρ) :
    Except Error (String × Value) :=
  match seen.lookup field.name, field.fallback with
  | some value, _ => .ok (field.name, value)
  | none, some value => .ok (field.name, value)
  | none, none =>
    if field.optional then .ok (field.name, .none) else .error (.mismatch (.missingField field.name))

def readFields (config : Config) (fields : List (FieldReader (DecodeM Value))) (s : OpenStructure) :
    DecodeM (List (String × Value) × OpenStructure) := do
  let (seen, s) ← fieldRounds config fields ((← get).rest.length + 1) s []
  return (← ofExcept (fields.mapM (FieldReader.complete seen)), s)

-- An array-framed record is read field by field in the type's order; any other is read entry by
-- entry in the document's order and completed at its end.
def readRecord (config : Config) (name expected : String)
    (fields : List (FieldReader (DecodeM Value))) : DecodeM Value := do
  let shape := config.shape name .keyed (fields.map (·.name))
  let s ← beginStructure config shape
  let (values, s) ←
    if shape.isArrayFramed then takeFields config (withElements expected fields.length) 0 fields s
    else readFields config fields s
  endStructure s
  return .record name values

end Decoder
end TypedCbor
