import TypedCbor.Ty

namespace TypedCbor

def Content.parts : Content τ → List τ
  | unit => []
  | newtype type => [type]
  | tuple types => types
  | record fields => fields.map Field.type

namespace Ty

-- The types that a type is made of directly; a delayed type is made of the type it unfolds to.
def parts : Ty → List Ty
  | option type | seq type | newtype _ type | embedded type => [type]
  | tuple types | tupleStruct _ types => types
  | map key value => [key, value]
  | record _ fields => fields.map Field.type
  | enumeration _ variants => variants.flatMap fun variant => variant.content.parts
  | delayed type => [type ()]
  | _ => []

inductive Everywhere (P : Ty → Prop) : Ty → Prop where
  | intro {type : Ty} (here : P type) (inside : ∀ part ∈ type.parts, Everywhere P part) : Everywhere P type

theorem Everywhere.mono {P Q : Ty → Prop} {type : Ty} (all : type.Everywhere P) (weaker : ∀ type, P type → Q type) :
    type.Everywhere Q := by
  induction all with
  | intro here _ ih => exact .intro (weaker _ here) ih

theorem everywhere_of_leaf {P : Ty → Prop} {type : Ty} (here : P type) (leaf : type.parts = []) :
    type.Everywhere P :=
  .intro here fun part member => by simp [leaf] at member

theorem mem_parts_record {name : String} {fields : List (Field Ty)} {field : Field Ty}
    (member : field ∈ fields) : field.type ∈ (record name fields).parts :=
  List.mem_map_of_mem member

theorem mem_parts_enumeration {name : String} {variants : List (Variant Ty)} {variant : Variant Ty}
    (member : variant ∈ variants) {part : Ty} (inside : part ∈ variant.content.parts) :
    part ∈ (enumeration name variants).parts :=
  List.mem_flatMap.mpr ⟨variant, member, inside⟩

theorem induction {P : Ty → Prop} (step : ∀ type, (∀ part ∈ type.parts, P part) → P type)
    (type : Ty) : P type := by
  refine @Ty.rec P (fun types => ∀ part ∈ types, P part)
    (fun fields => ∀ field ∈ fields, P field.type)
    (fun variants => ∀ variant ∈ variants, ∀ part ∈ variant.content.parts, P part)
    (fun field => P field.type) (fun variant => ∀ part ∈ variant.content.parts, P part)
    (fun content => ∀ part ∈ content.parts, P part)
    ?bool ?int ?single ?double ?char ?text ?textSlice ?bytes ?bytesSlice ?unit ?unitStruct ?option ?seq
    ?tuple ?tupleStruct ?newtype ?map ?record ?enumeration ?embedded ?delayed ?any ?identifier ?ignored
    ?noType ?types ?noField ?fields ?noVariant ?variants ?field ?variant ?unitContent ?newtypeContent
    ?tupleContent ?recordContent type
  case option | seq | embedded =>
    intro type ih
    exact step _ (by simpa [parts] using ih)
  case newtype =>
    intro name type ih
    exact step _ (by simpa [parts] using ih)
  case tuple => exact fun types ih => step _ ih
  case tupleStruct => exact fun name types ih => step _ ih
  case map =>
    intro key value keyHolds valueHolds
    exact step _ (by simpa [parts] using ⟨keyHolds, valueHolds⟩)
  case record =>
    intro name fields ih
    refine step _ fun part member => ?_
    obtain ⟨field, present, rfl⟩ := List.mem_map.mp member
    exact ih field present
  case enumeration =>
    intro name variants ih
    refine step _ fun part member => ?_
    obtain ⟨variant, present, inside⟩ := List.mem_flatMap.mp member
    exact ih variant present part inside
  case delayed =>
    intro type ih
    exact step _ (by simpa [parts] using ih ())
  case int | unitStruct => exact fun _ => step _ (by simp [parts])
  case bool | single | double | char | text | textSlice | bytes | bytesSlice | unit | any | identifier
    | ignored => exact step _ (by simp [parts])
  case field => exact fun _ _ _ ih => ih
  case variant => exact fun _ _ ih => ih
  case newtypeContent => exact fun type ih => by simpa [Content.parts] using ih
  case tupleContent => exact fun _ ih => ih
  case recordContent =>
    intro fields ih part member
    obtain ⟨field, present, rfl⟩ := List.mem_map.mp member
    exact ih field present
  case types | fields | variants =>
    intro first others holds ih
    exact List.forall_mem_cons.mpr ⟨holds, ih⟩
  case noType | noField | noVariant | unitContent => simp [Content.parts]

end Ty
end TypedCbor
