namespace TypedCbor

inductive StructureKind where
  -- A record, in a map unless array-framed.
  | keyed
  -- A sequence or tuple.
  | list
  -- A map whose keys are data.
  | map
  -- A variant with its content, as a pair.
  | polymorphic
  deriving DecidableEq, Repr

-- The value a field is taken to hold when it is left out.
inductive DeclaredDefault where
  | null
  | bool (value : Bool)
  | integer (value : Int64)
  | single (bits : UInt32)
  | double (bits : UInt64)
  | text (value : String)
  | bytes (value : List UInt8)
  | emptyArray
  | emptyMap
  deriving DecidableEq

-- What a descriptor says of one field.
structure Element where
  name : String
  label : Option Int64 := none
  keyTags : List UInt64 := []
  valueTags : List UInt64 := []
  -- A sequence of bytes here is a byte string.
  byteString : Bool := false
  -- The field holds an object: its null is the empty map.
  object : Bool := false
  declaredDefault : Option DeclaredDefault := none
  deriving DecidableEq

def Element.anonymous : Element := ⟨"", none, [], [], false, false, none⟩

def Element.named (name : String) : Element := ⟨name, none, [], [], false, false, none⟩

structure Descriptor where
  name : String
  kind : StructureKind := .keyed
  -- When present the record is an array behind these tags.
  arrayTags : Option (List UInt64) := none
  elements : List Element := []
  deriving DecidableEq

-- A target type only says that it is a record named so with such fields; a descriptor registered under the name adds
-- what the type cannot say.
inductive Shape where
  | described (descriptor : Descriptor)
  | plain (kind : StructureKind) (fields : List String)
  deriving DecidableEq

namespace Shape

def list : Shape := .plain .list []
def map : Shape := .plain .map []
def polymorphic : Shape := .plain .polymorphic []

def kind : Shape → StructureKind
  | described descriptor => descriptor.kind
  | plain kind _ => kind

def arrayTags : Shape → Option (List UInt64)
  | described descriptor => descriptor.arrayTags
  | plain .. => none

def isArrayFramed (shape : Shape) : Bool := shape.arrayTags.isSome

def hasKeys (shape : Shape) : Bool := shape.kind == .keyed && !shape.isArrayFramed

def elements : Shape → List Element
  | described descriptor => descriptor.elements
  | plain _ fields => fields.map Element.named

def length (shape : Shape) : Nat := shape.elements.length

def isEmpty (shape : Shape) : Bool := shape.length == 0

def element (shape : Shape) (index : Nat) : Element := (shape.elements[index]?).getD .anonymous

def elementName (shape : Shape) (index : Nat) : String := (shape.element index).name

def indexOfName (shape : Shape) (name : String) : Option Nat :=
  shape.elements.findIdx? (·.name == name)

def indexOfLabel (shape : Shape) (label : Int64) : Option Nat :=
  shape.elements.findIdx? (·.label == some label)

-- The element of a field; one that the shape does not list has only its name.
def elementNamed (shape : Shape) (name : String) : Element :=
  match shape.indexOfName name with
  | some index => shape.element index
  | none => .named name

end Shape

inductive Key where
  | label (n : Int)
  | name (text : String)
  deriving DecidableEq, Repr

namespace Key

def render : Key → String
  | label n => toString n
  | name text => "\"" ++ text ++ "\""

-- The element that a key stands for. A label outside the labels' range stands for none.
def resolve (shape : Shape) : Key → Option Nat
  | label n =>
    if Int64.minValue.toInt ≤ n ∧ n ≤ Int64.maxValue.toInt then shape.indexOfLabel (Int64.ofInt n) else none
  | name text => shape.indexOfName text

end Key
end TypedCbor
