import TypedCbor.Proofs.Places.Visited

namespace TypedCbor

open Decoder

-- A pair begins here, and what it names is a unit.
inductive PairsUnit (config : Config) (variants : List (Variant Ty)) (decoder : Decoder) : Prop where
  | intro {s s₁ : OpenStructure} {decoder₁ decoder₂ decoder₃ : Decoder} {first : Nat} {payload : TextPayload}
      {name : String}
      (begun : outcome (beginPair config) decoder = .ok ((.array, s), decoder₁))
      (announced : outcome (nextElement config s) decoder₁ = .ok ((some first, s₁), decoder₂))
      (named : outcome (readText config) decoder₂ = .ok (payload, decoder₃))
      (unit : variants.find? (·.name == payload.text) = some ⟨name, .unit⟩) : PairsUnit config variants decoder

-- Reading from here comes to no unit variant in array form.
def WithoutPairedUnits (config : Config) (target : Target) (decoder : Decoder) : Prop :=
  ∀ parent variants inner, Visits config target decoder (.value (.enumeration parent variants)) inner →
    ¬PairsUnit config variants inner

def Target.parts : Target → List Ty
  | value type => type.parts
  | tuple _ types => types
  | record _ _ fields => fields.map Field.type

section
variable {config : Config}

theorem Visits.after {target between target' : Target} {decoder decoder₁ inner : Decoder}
    (enters : Enters config target decoder between decoder₁) (visits : Visits config between decoder₁ target' inner) :
    Visits config target decoder target' inner := by
  induction visits with
  | here => exact .further .here enters
  | further _ last ih => exact .further ih last

theorem WithoutPairedUnits.inside {target between : Target} {decoder decoder₁ : Decoder}
    (unpaired : WithoutPairedUnits config target decoder) (enters : Enters config target decoder between decoder₁) :
    WithoutPairedUnits config between decoder₁ :=
  fun parent variants inner visits => unpaired parent variants inner (visits.after enters)

theorem Target.mem_parts {target : Target} {others : List Nat} {index : Nat} {type : Ty}
    (known : target.part config others index = some type) :
    type ∈ target.parts ∨ (type = .ignored ∧ ∃ name expected fields, target = .record name expected fields ∧
      (config.recordShape name fields).isArrayFramed = false ∧
        fields.find? (·.name == (config.recordShape name fields).elementName index) = none) := by
  cases target with
  | tuple expected types => exact .inl (List.mem_of_getElem? known)
  | record name expected fields =>
    simp only [part] at known
    split at known
    · obtain ⟨field, found, rfl⟩ := Option.map_eq_some_iff.mp known
      exact .inl (List.mem_map_of_mem (List.mem_of_getElem? found))
    · rename_i plain
      split at known
      · rename_i field found
        split at known
        · cases known
        · cases known
          exact .inl (List.mem_map_of_mem (List.mem_of_find?_eq_some found))
      · rename_i unknown
        cases known
        exact .inr ⟨rfl, name, expected, fields, rfl, Bool.eq_false_iff.mpr plain, unknown⟩
  | value type =>
    cases type with
    | seq type =>
      cases known
      exact .inl (List.mem_singleton_self _)
    | map keys values =>
      cases known
      refine .inl ?_
      split <;> simp [parts, Ty.parts]
    | _ => cases known

theorem Visits.cases {target target' : Target} {decoder inner : Decoder}
    (visits : Visits config target decoder target' inner) :
    (target' = target ∧ inner = decoder) ∨
      ∃ between decoder₁, Enters config target decoder between decoder₁ ∧
        Visits config between decoder₁ target' inner := by
  induction visits with
  | here => exact .inl ⟨rfl, rfl⟩
  | further _ last ih =>
    rcases ih with ⟨rfl, rfl⟩ | ⟨between, decoder₁, first, others⟩
    · exact .inr ⟨_, _, last, .here⟩
    · exact .inr ⟨between, decoder₁, first, .further others last⟩

theorem withoutPairedUnits_of_enters {target : Target} {decoder : Decoder}
    (here : ∀ parent variants, target = .value (.enumeration parent variants) → ¬PairsUnit config variants decoder)
    (inside : ∀ between decoder₁, Enters config target decoder between decoder₁ →
      WithoutPairedUnits config between decoder₁) : WithoutPairedUnits config target decoder := by
  intro parent variants inner visits
  rcases visits.cases with ⟨same, rfl⟩ | ⟨between, decoder₁, enters, others⟩
  · exact here parent variants same.symm
  · exact inside between decoder₁ enters parent variants inner others

end

def Ty.HasUnit : Ty → Prop
  | enumeration _ variants => ∃ variant ∈ variants, variant.content = .unit
  | _ => False

def Target.Everywhere (P : Ty → Prop) : Target → Prop
  | value type => type.Everywhere P
  | tuple _ types => ∀ part ∈ types, part.Everywhere P
  | record _ _ fields => ∀ part ∈ fields.map Field.type, part.Everywhere P

section
variable {config : Config} {P : Ty → Prop} {target target' : Target} {decoder inner : Decoder}

theorem Target.Everywhere.part (all : target.Everywhere P) {part : Ty} (member : part ∈ target.parts) :
    part.Everywhere P := by
  cases target with
  | value type =>
    obtain ⟨-, inside⟩ := all
    exact inside part member
  | tuple | record => exact all part member

theorem Content.everywhere_target {parent name : String} {content : Content Ty}
    (carries : content.target parent name = some target) (inside : ∀ part ∈ content.parts, part.Everywhere P) :
    target.Everywhere P := by
  cases content with
  | unit => cases carries
  | newtype type =>
    cases carries
    exact inside type (List.mem_singleton_self _)
  | tuple | record =>
    cases carries
    exact inside

theorem Enters.everywhere (enters : Enters config target decoder target' inner) (all : target.Everywhere P) :
    target'.Everywhere P ∨ target' = .value .ignored := by
  cases enters with
  | tuple | tupleStruct | record => exact .inl fun part member => all.part member
  | newtype | delayed | option => exact .inl (all.part (List.mem_singleton_self _))
  | variant _ _ _ known _ carries =>
    have member := List.mem_of_find?_eq_some known
    exact .inl (Content.everywhere_target carries fun part within =>
      all.part (List.mem_flatMap.mpr ⟨_, member, within⟩))
  | element _ _ _ _ known =>
    rcases target.mem_parts known with part | ⟨rfl, -⟩
    · exact .inl (all.part part)
    · exact .inr rfl

theorem Visits.everywhere (visits : Visits config target decoder target' inner) (all : target.Everywhere P) :
    target'.Everywhere P ∨ target' = .value .ignored := by
  induction visits with
  | here => exact .inl all
  | further _ enters ih =>
    rcases ih with all | rfl
    · exact enters.everywhere all
    · cases enters with
      | element framed => cases framed

theorem withoutPairedUnits_of_carrying (carrying : target.Everywhere (¬ ·.HasUnit)) (decoder : Decoder) :
    WithoutPairedUnits config target decoder := by
  intro parent variants inner visits
  rintro ⟨-, -, -, unit⟩
  rcases visits.everywhere carrying with ⟨here, -⟩ | same
  · exact here ⟨_, List.mem_of_find?_eq_some unit, rfl⟩
  · cases same

theorem Walk.index_le {part : List Nat → Nat → Option Ty} {others others' : List Nat} {s s' : OpenStructure}
    {decoder decoder' : Decoder} (unkeyed : s.shape.hasKeys = false)
    (walk : Walk config part others s decoder others' s' decoder') : s.index ≤ s'.index := by
  induction walk with
  | done => exact Nat.le_refl _
  | next announced _ _ _ ih =>
    obtain ⟨-, rfl⟩ := index_of_unkeyed unkeyed announced
    exact Nat.le_trans (Nat.le_succ _) (ih unkeyed)

theorem withoutPairedUnits_of_tuple {expected : String} {first : Ty} {types : List Ty}
    (here : ∀ s s₁ index decoder₁ inner, outcome (beginStructure config .list) decoder = .ok (s, decoder₁) →
      outcome (nextElement config s) decoder₁ = .ok ((some index, s₁), inner) →
        WithoutPairedUnits config (.value first) inner)
    (carrying : ∀ type ∈ types, type.Everywhere (¬ ·.HasUnit)) :
    WithoutPairedUnits config (.tuple expected (first :: types)) decoder := by
  refine withoutPairedUnits_of_enters (fun _ _ => nofun) fun between inner enters => ?_
  cases enters with
  | @element _ _ _ decoder₁ decoder₂ _ s s₁ s₂ others index type framed begun walk announced known =>
    cases framed
    obtain ⟨_, rfl⟩ := eq_of_begun begun
    have unkeyed : s₁.shape.hasKeys = false := by rw [walk.shape]; rfl
    obtain ⟨rfl, -⟩ := index_of_unkeyed unkeyed announced
    cases walk with
    | done =>
      cases known
      exact here _ _ _ _ _ begun announced
    | next announced' _ _ more =>
      obtain ⟨-, rfl⟩ := index_of_unkeyed rfl announced'
      have behind : 1 ≤ s₁.index := more.index_le rfl
      obtain ⟨index, same⟩ : ∃ index, s₁.index = index + 1 := ⟨s₁.index - 1, by omega⟩
      rw [same] at known
      refine withoutPairedUnits_of_carrying ?_ inner
      exact carrying type (List.mem_of_getElem? known)

end
end TypedCbor
