import Mathlib.Data.List.Nodup
import TypedCbor.Config

namespace TypedCbor

-- What the constructors of descriptors make and registering takes, with no element marked as an object.
structure Descriptor.Proper (descriptor : Descriptor) : Prop where
  keyed : descriptor.kind = .keyed
  names : (descriptor.elements.map Element.name).Nodup
  labels : (descriptor.elements.filterMap Element.label).Nodup
  plain : ∀ element ∈ descriptor.elements, element.object = false

namespace Shape

variable {shape : Shape}

structure Distinct (shape : Shape) : Prop where
  names : (shape.elements.map Element.name).Nodup
  labels : (shape.elements.filterMap Element.label).Nodup

theorem findIdx?_eq_of_unique {elements : List Element} {index : Nat} {p : Element → Bool}
    (bound : index < elements.length) (holds : p elements[index] = true)
    (only : ∀ other (h : other < elements.length), p elements[other] = true → other = index) :
    elements.findIdx? p = some index := by
  refine List.findIdx?_eq_some_iff_getElem.mpr ⟨bound, holds, fun other below found => ?_⟩
  exact Nat.ne_of_lt below (only other (Nat.lt_trans below bound) found)

theorem element_of_lt {index : Nat} (bound : index < shape.elements.length) :
    shape.element index = shape.elements[index] := by
  rw [element, List.getElem?_eq_getElem bound, Option.getD_some]

theorem indexOfName_of_nodup (names : (shape.elements.map Element.name).Nodup) {index : Nat}
    (bound : index < shape.elements.length) :
    shape.indexOfName shape.elements[index].name = some index := by
  refine findIdx?_eq_of_unique bound (beq_self_eq_true _) fun other below same => ?_
  have bound' : index < (shape.elements.map Element.name).length := by rwa [List.length_map]
  have below' : other < (shape.elements.map Element.name).length := by rwa [List.length_map]
  apply (@List.Nodup.getElem_inj_iff _ _ names other below' index bound').mp
  rw [List.getElem_map, List.getElem_map]
  exact eq_of_beq same

theorem elementNamed_of_nodup (names : (shape.elements.map Element.name).Nodup) {element : Element}
    (member : element ∈ shape.elements) : shape.elementNamed element.name = element := by
  obtain ⟨index, bound, rfl⟩ := List.mem_iff_getElem.mp member
  rw [elementNamed, indexOfName_of_nodup names bound]
  exact element_of_lt bound

theorem Distinct.indexOfLabel (distinct : shape.Distinct) {index : Nat} {label : Int64}
    (bound : index < shape.elements.length) (labelled : shape.elements[index].label = some label) :
    shape.indexOfLabel label = some index := by
  have apart := List.pairwise_iff_getElem.mp (List.pairwise_filterMap.mp distinct.labels)
  refine findIdx?_eq_of_unique bound (by rw [labelled, beq_self_eq_true]) fun other below same => ?_
  have labelled' : shape.elements[other].label = some label := eq_of_beq same
  rcases Nat.lt_trichotomy other index with before | rfl | after
  · exact absurd rfl (apart other index below bound before label labelled' label labelled)
  · rfl
  · exact absurd rfl (apart index other bound below after label labelled label labelled')

theorem elementNamed_mem_or (name : String) :
    shape.elementNamed name ∈ shape.elements ∨ shape.elementNamed name = .named name := by
  unfold elementNamed
  split
  · rename_i index found
    have bound := (List.findIdx?_eq_some_iff_getElem.mp found).1
    rw [element_of_lt bound]
    exact .inl (List.getElem_mem bound)
  · exact .inr rfl

theorem indexOfName_eq_none_iff {name : String} :
    shape.indexOfName name = none ↔ name ∉ shape.elements.map Element.name := by
  rw [indexOfName, List.findIdx?_eq_none_iff, List.mem_map]
  constructor
  · rintro none ⟨element, member, rfl⟩
    exact Bool.false_ne_true ((none element member).symm.trans (beq_self_eq_true _))
  · intro unlisted element member
    exact beq_eq_false_iff_ne.mpr fun same => unlisted ⟨element, member, same⟩

theorem Distinct.found (distinct : shape.Distinct) {element : Element} (member : element ∈ shape.elements) :
    ∃ index, shape.element index = element ∧ shape.indexOfName element.name = some index ∧
      ∀ label, element.label = some label → shape.indexOfLabel label = some index := by
  obtain ⟨index, bound, rfl⟩ := List.mem_iff_getElem.mp member
  exact ⟨index, element_of_lt bound, indexOfName_of_nodup distinct.names bound,
    fun label labelled => distinct.indexOfLabel bound labelled⟩

theorem Distinct.elementNamed (distinct : shape.Distinct) {element : Element}
    (member : element ∈ shape.elements) : shape.elementNamed element.name = element :=
  elementNamed_of_nodup distinct.names member

theorem Distinct.elementNamed_of_position (distinct : shape.Distinct) {index : Nat} {name : String}
    (found : (shape.elements.map Element.name)[index]? = some name) :
    shape.elementNamed name = shape.element index := by
  obtain ⟨bound, same⟩ := List.getElem?_eq_some_iff.mp found
  rw [List.length_map] at bound
  rw [List.getElem_map] at same
  rw [element_of_lt bound, ← same]
  exact distinct.elementNamed (List.getElem_mem bound)

end Shape

theorem Key.resolve_lt {shape : Shape} {key : Key} {index : Nat} (resolved : key.resolve shape = some index) :
    index < shape.length := by
  cases key with
  | label n =>
    rw [Key.resolve] at resolved
    split at resolved
    · exact (List.findIdx?_eq_some_iff_getElem.mp resolved).1
    · cases resolved
  | name text => exact (List.findIdx?_eq_some_iff_getElem.mp resolved).1

namespace Config

variable {config : Config}

theorem elementNamed_plain (kind : StructureKind) (fields : List String) (name : String) :
    (Shape.plain kind fields).elementNamed name = .named name := by
  unfold Shape.elementNamed
  split
  · rename_i index found
    obtain ⟨bound, same, -⟩ := List.findIdx?_eq_some_iff_getElem.mp found
    have here : (Shape.plain kind fields).element index = _ := Shape.element_of_lt bound
    simp only [Shape.elements, List.getElem_map] at here same
    rw [here]
    exact congrArg Element.named (eq_of_beq same)
  · rfl

theorem elementNamed_shape (config : Config) (name : String) (kind : StructureKind)
    (fields fields' : List String) :
    (config.shape name kind fields).elementNamed = (config.shape name kind fields').elementNamed := by
  funext field
  unfold Config.shape
  split
  · rfl
  · rw [elementNamed_plain, elementNamed_plain]

theorem arrayTags_shape (config : Config) (name : String) (kind : StructureKind)
    (fields fields' : List String) :
    (config.shape name kind fields).arrayTags = (config.shape name kind fields').arrayTags := by
  unfold Config.shape
  split <;> rfl

theorem distinct_shape
    (described : ∀ descriptor ∈ config.descriptors, (Shape.described descriptor).Distinct) {name : String}
    {kind : StructureKind} {fields : List String} (distinct : fields.Nodup) :
    (config.shape name kind fields).Distinct := by
  unfold Config.shape
  split
  · rename_i descriptor found
    exact described descriptor (List.mem_of_find?_eq_some found)
  · have names : (fields.map Element.named).map Element.name = fields := by
      rw [List.map_map]
      exact List.map_id fields
    refine ⟨by rwa [Shape.elements, names], ?_⟩
    rw [Shape.elements, List.filterMap_map]
    have none : (Element.label ∘ Element.named) = fun _ => none := rfl
    rw [none, List.filterMap_none]
    exact List.nodup_nil

end Config
end TypedCbor
