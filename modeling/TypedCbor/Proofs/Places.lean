import TypedCbor.Proofs.Taking.Settled
import TypedCbor.Proofs.Typing

namespace TypedCbor

-- What is read at a place. Records and tuples are apart from the types they belong to, because the
-- contents of variants are read like them.
inductive Target where
  | value (type : Ty)
  | tuple (expected : String) (types : List Ty)
  | record (name expected : String) (fields : List (Field Ty))

open Decoder

namespace Target

def read (config : Config) : Target → DecodeM Value
  | value type => type.read config
  | tuple expected types => .tuple <$> readTuple config expected (slots config types)
  | record name expected fields => readRecord config name expected (fieldReaders config fields)

def frame (config : Config) : Target → Option Shape
  | value (.seq _) | tuple .. => some .list
  | value (.map ..) => some .map
  | record name _ fields => some (config.recordShape name fields)
  | _ => none

-- What the next element is read as if it is announced as such behind others, the latest of them first.
-- There is none if nothing more is read: a tuple is full, or a field is there again.
def part (config : Config) : Target → List Nat → Nat → Option Ty
  | value (.seq type), _, _ => some type
  | value (.map keys values), _, index => some (if index % 2 = 0 then keys else values)
  | tuple _ types, _, index => types[index]?
  | record name _ fields, others, index =>
    let shape := config.recordShape name fields
    if shape.isArrayFramed then (fields[index]?).map Field.type
    else
      match fields.find? (·.name == shape.elementName index) with
      | some field =>
        if others.any (shape.elementName · == shape.elementName index) then none else some field.type
      | none => some .ignored
  | _, _, _ => none

theorem part_of_array {config : Config} {name expected : String} {fields : List (Field Ty)}
    (array : (config.recordShape name fields).isArrayFramed = true) :
    part config (.record name expected fields) = fun _ index => (fields[index]?).map Field.type := by
  funext others index
  simp [part, array]

end Target

def Content.target (parent name : String) : Content Ty → Option Target
  | unit => none
  | newtype type => some (.value type)
  | tuple types =>
    some (.tuple (withElements ("tuple variant " ++ parent ++ "::" ++ name) types.length) types)
  | record fields => some (.record name ("struct variant " ++ parent ++ "::" ++ name) fields)

-- An open structure that is read on, element by element; the list is of those announced.
inductive Walk (config : Config) (part : List Nat → Nat → Option Ty) :
    List Nat → OpenStructure → Decoder → List Nat → OpenStructure → Decoder → Prop where
  | done {others : List Nat} {s : OpenStructure} {decoder : Decoder} : Walk config part others s decoder others s decoder
  | next {others others' : List Nat} {index : Nat} {s s₁ s' : OpenStructure}
      {decoder decoder₁ decoder₂ decoder' : Decoder} {type : Ty} {value : Value}
      (announced : outcome (nextElement config s) decoder = .ok ((some index, s₁), decoder₁))
      (known : part others index = some type)
      (read : outcome (type.read config) decoder₁ = .ok (value, decoder₂))
      (more : Walk config part (index :: others) s₁ decoder₂ others' s' decoder') :
      Walk config part others s decoder others' s' decoder'

theorem Walk.shape {config : Config} {part : List Nat → Nat → Option Ty} {others others' : List Nat} {s s' : OpenStructure}
    {decoder decoder' : Decoder} (walk : Walk config part others s decoder others' s' decoder') :
    s'.shape = s.shape := by
  induction walk with
  | done => rfl
  | next announced _ _ _ ih => exact ih.trans (shape_of_nextElement announced)

def Decoder.beginPair (config : Config) : DecodeM (Major × OpenStructure) := do
  readAhead
  let major ← cursor Cursor.peekMajor
  return (major, ← beginStructure config .polymorphic)

-- Reading a target leads to reading one of its parts: the decoder stands where it starts on that.
inductive Enters (config : Config) : Target → Decoder → Target → Decoder → Prop where
  | tuple {types : List Ty} {decoder : Decoder} :
    Enters config (.value (.tuple types)) decoder
      (.tuple ("a tuple of size " ++ toString types.length) types) decoder
  | tupleStruct {name : String} {types : List Ty} {decoder : Decoder} :
    Enters config (.value (.tupleStruct name types)) decoder
      (.tuple (withElements ("tuple struct " ++ name) types.length) types) decoder
  | record {name : String} {fields : List (Field Ty)} {decoder : Decoder} :
    Enters config (.value (.record name fields)) decoder (.record name ("struct " ++ name) fields) decoder
  | newtype {name : String} {type : Ty} {decoder : Decoder} :
    Enters config (.value (.newtype name type)) decoder (.value type) decoder
  | delayed {type : Unit → Ty} {decoder : Decoder} :
    Enters config (.value (.delayed type)) decoder (.value (type ())) decoder
  | option {type : Ty} {decoder inner : Decoder}
      (present : outcome (readNull config) decoder = .ok (false, inner)) :
    Enters config (.value (.option type)) decoder (.value type) inner
  | variant {parent name : String} {variants : List (Variant Ty)} {content : Content Ty} {target : Target}
      {decoder decoder₁ decoder₂ decoder₃ inner : Decoder} {s s₁ s₂ : OpenStructure} {first second : Nat}
      {payload : TextPayload}
      (begun : outcome (beginPair config) decoder = .ok ((.array, s), decoder₁))
      (firstAnnounced : outcome (nextElement config s) decoder₁ = .ok ((some first, s₁), decoder₂))
      (named : outcome (readText config) decoder₂ = .ok (payload, decoder₃))
      (known : variants.find? (·.name == payload.text) = some ⟨name, content⟩)
      (secondAnnounced : outcome (nextElement config s₁) decoder₃ = .ok ((some second, s₂), inner))
      (carries : content.target parent name = some target) :
    Enters config (.value (.enumeration parent variants)) decoder target inner
  | element {target : Target} {shape : Shape} {decoder decoder₁ decoder₂ inner : Decoder}
      {s s₁ s₂ : OpenStructure} {others : List Nat} {index : Nat} {type : Ty}
      (framed : target.frame config = some shape)
      (begun : outcome (beginStructure config shape) decoder = .ok (s, decoder₁))
      (walk : Walk config (target.part config) [] s decoder₁ others s₁ decoder₂)
      (announced : outcome (nextElement config s₁) decoder₂ = .ok ((some index, s₂), inner))
      (known : target.part config others index = some type) :
    Enters config target decoder (.value type) inner

inductive Visits (config : Config) (target : Target) (decoder : Decoder) : Target → Decoder → Prop where
  | here : Visits config target decoder target decoder
  | further {between target' : Target} {decoder₁ inner : Decoder}
      (visits : Visits config target decoder between decoder₁)
      (enters : Enters config between decoder₁ target' inner) :
      Visits config target decoder target' inner

-- What the content of an embedded value is read as has no place here, since it is a document of its own.
def Config.Visits (config : Config) (type : Ty) (input : Bytes) (target : Target) (inner : Decoder) : Prop :=
  TypedCbor.Visits config (.value type) ⟨input, none, []⟩ target inner

section
variable {strict lenient : Config} (relaxes : lenient.Relaxes strict)

theorem Takes.twin {peeks : α → Prop} {read twin : DecodeM α} (takes : Takes peeks read twin)
    {decoder after : Decoder} {a : α} (found : outcome read decoder = .ok (a, after)) :
    outcome twin decoder = .ok (a, after) := by
  obtain ⟨taken, split, law⟩ := takes decoder a after found
  have same := law.whole after.rest fun _ => rfl
  rwa [← split] at same

theorem Target.frame_relaxed (target : Target) (relaxes : lenient.Relaxes strict) :
    target.frame lenient = target.frame strict := by
  cases target with
  | record name expected fields => simp only [frame, Config.recordShape, relaxes.shape_eq]
  | value type => cases type <;> rfl
  | tuple => rfl

theorem Target.part_relaxed (target : Target) (relaxes : lenient.Relaxes strict) :
    target.part lenient = target.part strict := by
  cases target with
  | record name expected fields =>
    have same : lenient.recordShape name fields = strict.recordShape name fields := relaxes.shape_eq ..
    funext others index
    simp only [part, same]
  | value type => cases type <;> rfl
  | tuple => rfl

theorem delimits_beginStructure (shape : Shape) : Delimits fun config => beginStructure config shape :=
  delimits_readHeader _ fun relaxes _ _ _ agrees => takes_check fun _ => opened_relaxed relaxes agrees

theorem takes_beginPair (relaxes : lenient.Relaxes strict) :
    TakesAlone (beginPair strict) (beginPair lenient) := by
  have begun := delimits_beginStructure .polymorphic
  refine takes_readAhead.bind (fun _ => Cursor.takes_peekMajor.bind (fun major => ?_) fun major _ => .inr ?_)
    fun _ _ => .inr (Moves.after Cursor.takes_peekMajor fun major => ?_)
  · exact (begun.takes relaxes).andThen fun _ => takes_pure _
  all_goals exact (begun.moves strict).thenPure _

include relaxes in
theorem Walk.relaxed {part : List Nat → Nat → Option Ty} {others others' : List Nat} {s s' : OpenStructure}
    {decoder decoder' : Decoder} (walk : Walk strict part others s decoder others' s' decoder') :
    Walk lenient part others s decoder others' s' decoder' := by
  induction walk with
  | done => exact .done
  | @next _ _ _ _ _ _ _ _ _ _ type _ announced known read _ ih =>
    exact .next ((takes_nextElement relaxes _).twin announced) known ((type.delimits.takes relaxes).twin read) ih

include relaxes in
theorem Enters.relaxed {target target' : Target} {decoder inner : Decoder}
    (enters : Enters strict target decoder target' inner) : Enters lenient target decoder target' inner := by
  cases enters with
  | tuple => exact .tuple
  | tupleStruct => exact .tupleStruct
  | record => exact .record
  | newtype => exact .newtype
  | delayed => exact .delayed
  | option present => exact .option ((takes_readNull relaxes).twin present)
  | variant begun firstAnnounced named known secondAnnounced carries =>
    exact .variant ((takes_beginPair relaxes).twin begun) ((takes_nextElement relaxes _).twin firstAnnounced)
      ((delimits_readText.takes relaxes).twin named) known ((takes_nextElement relaxes _).twin secondAnnounced)
      carries
  | element framed begun walk announced known =>
    rw [← target.frame_relaxed relaxes] at framed
    rw [← target.part_relaxed relaxes] at walk known
    exact .element framed (((delimits_beginStructure _).takes relaxes).twin begun) (walk.relaxed relaxes)
      ((takes_nextElement relaxes _).twin announced) known

include relaxes in
theorem Visits.relaxed {target target' : Target} {decoder inner : Decoder}
    (visits : Visits strict target decoder target' inner) : Visits lenient target decoder target' inner := by
  induction visits with
  | here => exact .here
  | further _ enters ih => exact .further ih (enters.relaxed relaxes)

end
end TypedCbor
