import TypedCbor.Encoder.Value
import TypedCbor.Ty

namespace TypedCbor

namespace Value

mutual
-- The value with one pattern for all NaNs, and with nothing kept of what a wrapper was read from.
@[simp] def canonical : Value → Value
  | .single bits => .single (if Ieee.single.isNaN bits.toNat then 0x7fc00000 else bits)
  | .double bits => .double (if Ieee.isNaN bits then 0x7ff8000000000000 else bits)
  | .some value => .some value.canonical
  | .newtype value => .newtype value.canonical
  | .seq items => .seq (canonicalItems items)
  | .tuple items => .tuple (canonicalItems items)
  | .map entries => .map (canonicalEntries entries)
  | .record name fields => .record name (canonicalFields fields)
  | .variant name content => .variant name content.canonical
  | .embedded value _ => .embedded value.canonical .none
  | .visited how value => .visited how value.canonical
  | value => value

def canonicalItems : List Value → List Value
  | [] => []
  | value :: values => value.canonical :: canonicalItems values

def canonicalEntries : List (Value × Value) → List (Value × Value)
  | [] => []
  | (key, value) :: entries => (key.canonical, value.canonical) :: canonicalEntries entries

def canonicalFields : List (String × Value) → List (String × Value)
  | [] => []
  | (name, value) :: fields => (name, value.canonical) :: canonicalFields fields
end

def isNull : Value → Bool
  | .unit | .none => true
  | .some value | .newtype value | .visited _ value => value.isNull
  | _ => false

end Value

section
variable (record : String → List (Field Ty) → List (String × Value) → Prop) (present : Value → Prop)

mutual
-- The values of a type whose records and whose options that hold something are as asked. Targets
-- that take anything have no values of their own.
inductive Ty.Holds : Ty → Value → Prop where
  | bool (value : Bool) : Ty.Holds .bool (.bool value)
  | int {kind : IntKind} {n : Int} (held : kind.holds n = true) : Ty.Holds (.int kind) (.int kind n)
  | single (bits : UInt32) : Ty.Holds .single (.single bits)
  | double (bits : UInt64) : Ty.Holds .double (.double bits)
  | char (c : Char) : Ty.Holds .char (.char c)
  | text (content : String) : Ty.Holds .text (.text content)
  | textSlice (content : String) : Ty.Holds .textSlice (.text content)
  | bytes (content : Bytes) : Ty.Holds .bytes (.bytes content)
  | bytesSlice (content : Bytes) : Ty.Holds .bytesSlice (.bytes content)
  | unit : Ty.Holds .unit .unit
  | unitStruct (name : String) : Ty.Holds (.unitStruct name) .unit
  | none (type : Ty) : Ty.Holds (.option type) .none
  | some {type : Ty} {value : Value} (kept : present value) (held : Ty.Holds type value) :
    Ty.Holds (.option type) (.some value)
  | seq {type : Ty} {values : List Value} (each : ∀ value ∈ values, Ty.Holds type value) :
    Ty.Holds (.seq type) (.seq values)
  | tuple {types : List Ty} {values : List Value} (each : Ty.HoldAll types values) :
    Ty.Holds (.tuple types) (.tuple values)
  | tupleStruct {types : List Ty} {values : List Value} (name : String)
    (each : Ty.HoldAll types values) : Ty.Holds (.tupleStruct name types) (.tuple values)
  | newtype {type : Ty} {value : Value} (name : String) (held : Ty.Holds type value) :
    Ty.Holds (.newtype name type) (.newtype value)
  | map {key value : Ty} {entries : List (Value × Value)}
    (keys : ∀ entry ∈ entries, Ty.Holds key entry.1)
    (values : ∀ entry ∈ entries, Ty.Holds value entry.2) : Ty.Holds (.map key value) (.map entries)
  | record {name : String} {fields : List (Field Ty)} {values : List (String × Value)}
    (asked : record name fields values) (each : Ty.HoldFields fields values) :
    Ty.Holds (.record name fields) (.record name values)
  | unitVariant {name : String} {variants : List (Variant Ty)} (parent : String)
    (found : variants.find? (·.name == name) = .some ⟨name, .unit⟩) :
    Ty.Holds (.enumeration parent variants) (.unitVariant name)
  | newtypeVariant {name : String} {variants : List (Variant Ty)} {type : Ty} {value : Value}
    (parent : String) (found : variants.find? (·.name == name) = .some ⟨name, .newtype type⟩)
    (held : Ty.Holds type value) : Ty.Holds (.enumeration parent variants) (.variant name value)
  | tupleVariant {name : String} {variants : List (Variant Ty)} {types : List Ty} {values : List Value}
    (parent : String) (found : variants.find? (·.name == name) = .some ⟨name, .tuple types⟩)
    (each : Ty.HoldAll types values) :
    Ty.Holds (.enumeration parent variants) (.variant name (.tuple values))
  | recordVariant {name : String} {variants : List (Variant Ty)} {fields : List (Field Ty)}
    {values : List (String × Value)} (parent : String)
    (found : variants.find? (·.name == name) = .some ⟨name, .record fields⟩)
    (asked : record name fields values) (each : Ty.HoldFields fields values) :
    Ty.Holds (.enumeration parent variants) (.variant name (.record name values))
  | embedded {type : Ty} {value : Value} (serialized : Option Bytes) (held : Ty.Holds type value) :
    Ty.Holds (.embedded type) (.embedded value serialized)
  | delayed {type : Unit → Ty} {value : Value} (held : Ty.Holds (type ()) value) :
    Ty.Holds (.delayed type) value

inductive Ty.HoldAll : List Ty → List Value → Prop where
  | nil : Ty.HoldAll [] []
  | cons {type : Ty} {value : Value} {types : List Ty} {values : List Value}
    (here : Ty.Holds type value) (others : Ty.HoldAll types values) :
    Ty.HoldAll (type :: types) (value :: values)

inductive Ty.HoldFields : List (Field Ty) → List (String × Value) → Prop where
  | nil : Ty.HoldFields [] []
  | cons {field : Field Ty} {value : Value} {fields : List (Field Ty)} {values : List (String × Value)}
    (here : Ty.Holds field.type value) (others : Ty.HoldFields fields values) :
    Ty.HoldFields (field :: fields) ((field.name, value) :: values)
end

end

-- What a record has for a field that its document leaves out. A missing entry stands for nothing if the
-- field is optional, a missing place does not.
def Field.standIn (framed : Bool) (field : Field Ty) : Option Value :=
  match field.fallback with
  | some value => some value
  | none => if !framed && field.type.isOption then some .none else none

namespace Config

def recordShape (config : Config) (name : String) (fields : List (Field Ty)) : Shape :=
  config.shape name .keyed (fields.map Field.name)

def Writes (config : Config) (element : Element) (value : Value) : Prop :=
  ∃ output, value.encode config { markers := element.markers } = .ok { output }

def LeavesOut (config : Config) (element : Element) (value : Value) : Prop :=
  config.encodeDefaults = false ∧ ∃ standard, element.declaredDefault = some standard ∧
    value.encode config { markers := element.markers } = .ok { output := standard.encoded config element }

-- A record is described by what is registered under its name: its fields are listed, in an array all of
-- them in their order, and what is left out of it is put in again.
structure Describes (config : Config) (name : String) (fields : List (Field Ty))
    (values : List (String × Value)) : Prop where
  distinct : (fields.map Field.name).Nodup
  listed : ∀ field ∈ fields, field.name ∈ (config.recordShape name fields).elements.map Element.name
  ordered : (config.recordShape name fields).isArrayFramed = true →
    (config.recordShape name fields).elements.map Element.name = fields.map Field.name
  restored : ∀ pair ∈ fields.zip values,
    config.LeavesOut ((config.recordShape name fields).elementNamed pair.1.name) pair.2.2 →
      ∃ value, pair.1.standIn (config.recordShape name fields).isArrayFramed = some value ∧
        value.canonical = pair.2.2.canonical

-- In an array nothing may stand behind a field that is left out.
structure Carries (config : Config) (name : String) (fields : List (Field Ty))
    (values : List (String × Value)) : Prop extends config.Describes name fields values where
  trailing : (config.recordShape name fields).isArrayFramed = true →
    values.Pairwise fun earlier later =>
      config.LeavesOut ((config.recordShape name fields).elementNamed earlier.1) earlier.2 →
        config.LeavesOut ((config.recordShape name fields).elementNamed later.1) later.2

-- The values of a type that survive being written: what an option holds is not written as a null, and
-- records are carried.
def Conveys (config : Config) (type : Ty) (value : Value) : Prop :=
  type.Holds config.Carries (fun held => held.isNull = false) value

def ConveysFields (config : Config) (fields : List (Field Ty)) (values : List (String × Value)) : Prop :=
  Ty.HoldFields config.Carries (fun held => held.isNull = false) fields values

end Config

end TypedCbor
