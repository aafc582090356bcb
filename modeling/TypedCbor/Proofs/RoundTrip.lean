import TypedCbor.Proofs.Output
import TypedCbor.Proofs.RoundTrip.Records

namespace TypedCbor

variable {source target : Config}

section
variable {record : String → List (Field Ty) → List (String × Value) → Prop} {present : Value → Prop}

theorem Ty.returns_all {types : List Ty} {values : List Value}
    (returns : ∀ type ∈ types, ∀ value, type.Holds record present value →
      value.Returns source target (type.ofItem target))
    (each : Ty.HoldAll record present types values) :
    List.Forall₂ (fun type value => value.Returns source target (type.ofItem target)) types values := by
  induction types generalizing values with
  | nil =>
    cases each
    exact .nil
  | cons type types ih =>
    cases each with
    | cons here others =>
      obtain ⟨first, rest⟩ := List.forall_mem_cons.mp returns
      exact .cons (first _ here) (ih rest others)

theorem Ty.returns_fields {fields : List (Field Ty)} {values : List (String × Value)}
    (returns : ∀ field ∈ fields, ∀ value, field.type.Holds record present value →
      value.Returns source target (field.type.ofItem target))
    (each : Ty.HoldFields record present fields values) :
    ∀ pair ∈ fields.zip values, pair.2.2.Returns source target (pair.1.type.ofItem target) :=
  fun pair member => returns pair.1 (List.of_mem_zip member).1 _ (holds_of_holdFields each pair member)

theorem Ty.returns_of (regular : target.Regular) (kept : ∀ value, present value → value.isNull = false)
    (records : ∀ {name : String} {fields : List (Field Ty)} {values : List (String × Value)},
      record name fields values → Ty.HoldFields record present fields values →
      (∀ pair ∈ fields.zip values, pair.2.2.Returns source target (pair.1.type.ofItem target)) →
      ∀ expected, (Value.record name values).Returns source target
        (ItemReader.record target name expected (itemFields target fields)))
    (type : Ty) : ∀ value, type.Holds record present value →
      value.Returns source target (type.ofItem target) := by
  induction type using Ty.induction with
  | step type ih =>
    intro value held
    cases held with
    | bool value => exact Value.bool_returns value
    | int held => exact Value.int_returns held
    | single bits => exact Value.single_returns bits
    | double bits => exact Value.double_returns bits
    | char c => exact Value.char_returns c
    | text content => exact Value.text_returns content
    | textSlice content => exact Value.textSlice_returns content
    | bytes content => exact Value.bytes_returns content
    | bytesSlice content => exact Value.bytesSlice_returns content
    | unit | unitStruct => exact Value.unit_returns
    | none type => exact Value.none_returns type
    | @some type _ there held => exact (ih type (by simp [Ty.parts]) _ held).some (kept _ there)
    | @seq type _ each =>
      exact seq_returns (fun value member => ih type (by simp [Ty.parts]) value (each value member)) each
    | tuple each | tupleStruct name each => exact tuple_returns (Ty.returns_all ih each) _
    | @newtype type _ name held => exact (ih type (by simp [Ty.parts]) _ held).newtype name
    | @map key value _ keys values =>
      exact map_returns (fun entry member => ih key (by simp [Ty.parts]) _ (keys entry member))
        fun entry member => ih value (by simp [Ty.parts]) _ (values entry member)
    | record asked each =>
      exact records asked each
        (Ty.returns_fields (fun field member => ih _ (Ty.mem_parts_record member)) each) _
    | unitVariant parent found => exact unitVariant_returns (contentOf_itemVariants parent found)
    | @newtypeVariant name variants type _ parent found held =>
      have member := List.mem_of_find?_eq_some found
      have returns := ih type (Ty.mem_parts_enumeration member (by simp [Content.parts]))
      exact variant_returns (contentOf_itemVariants parent found) (returns _ held)
    | @tupleVariant name variants types _ parent found each =>
      have member := List.mem_of_find?_eq_some found
      exact variant_returns (contentOf_itemVariants parent found) (tuple_returns
        (Ty.returns_all (fun type inside => ih type (Ty.mem_parts_enumeration member inside)) each) _)
    | @recordVariant name variants fields _ parent found asked each =>
      have member := List.mem_of_find?_eq_some found
      have returns := Ty.returns_fields (fun field inside =>
        ih _ (Ty.mem_parts_enumeration member (List.mem_map_of_mem inside))) each
      exact variant_returns (contentOf_itemVariants parent found) (records asked each returns _)
    | @embedded type _ serialized held =>
      exact (ih type (by simp [Ty.parts]) _ held).embedded regular serialized
    | @delayed type _ held => exact ih (type ()) (by simp [Ty.parts]) value held

end

theorem Ty.returns (understands : target.Understands source) (type : Ty) {value : Value}
    (conveyed : source.Conveys type value) : value.Returns source target (type.ofItem target) := by
  refine Ty.returns_of understands.accords.regular (fun _ kept => kept) ?_ type value conveyed
  intro name fields values carried each returns expected
  refine record_returns understands.accords carried (names_of_holdFields each) (fun pair member => ?_) expected
  exact (returns pair member).inElement understands.accords (understands.object name .keyed _ pair.1.name)

theorem Config.readable_of_encode {config : Config} {value : Value} {output : Bytes}
    (keyed : ∀ descriptor ∈ config.descriptors, descriptor.kind = .keyed)
    (encoded : config.encode value = .ok output) (small : output.length < 2 ^ 64) :
    ∃ item, value.item config {} = .ok item ∧ output = item.bytes ∧ item.Readable := by
  obtain ⟨item, made, rfl, whole⟩ := Config.made_of_encode keyed encoded small
  exact ⟨item, made, rfl, Item.wellFormed_of_made whole small, small⟩

theorem Config.decode_item (understands : target.Understands source) {type : Ty} {value : Value}
    (conveyed : source.Conveys type value) {item : Item} (made : value.item source {} = .ok item)
    (readable : item.Readable) :
    ∃ decoded, target.decode type item.bytes = .ok decoded ∧ decoded.canonical = value.canonical := by
  rw [Config.decode_bytes understands.accords.regular type readable]
  exact (Ty.returns understands type conveyed {} item rfl made readable).on

-- What a configuration writes is read as it was by every configuration that understands it, whatever
-- the options of the two are. All NaNs are taken for one, and wrappers for what they hold.
theorem Config.decode_encode (understands : target.Understands source) {type : Ty} {value : Value}
    (conveyed : source.Conveys type value) {output : Bytes} (encoded : source.encode value = .ok output)
    (small : output.length < 2 ^ 64) :
    ∃ decoded, target.decode type output = .ok decoded ∧ decoded.canonical = value.canonical := by
  obtain ⟨item, made, rfl, readable⟩ := Config.readable_of_encode understands.accords.keyed encoded small
  exact Config.decode_item understands conveyed made readable

section
def Ty.pointFields : List (Field Ty) := [⟨"x", .int .i32, some (.int .i32 0)⟩, ⟨"y", .int .i32, none⟩]

def Ty.point : Ty := .record "Point" Ty.pointFields

def Value.point (x y : Int) : Value := .record "Point" [("x", .int .i32 x), ("y", .int .i32 y)]

theorem Ty.holds_point {record : String → List (Field Ty) → List (String × Value) → Prop}
    {present : Value → Prop} {x y : Int} (asked : record "Point" Ty.pointFields [("x", .int .i32 x), ("y", .int .i32 y)])
    (xHeld : IntKind.i32.holds x = true) (yHeld : IntKind.i32.holds y = true) :
    Ty.point.Holds record present (.point x y) :=
  .record asked (.cons (.int xHeld) (.cons (.int yHeld) .nil))

theorem Config.describes_point {config : Config}
    (listed : (config.recordShape "Point" Ty.pointFields).elements.map Element.name = ["x", "y"])
    (required : ((config.recordShape "Point" Ty.pointFields).elementNamed "y").declaredDefault = none)
    (y : Int) : config.Describes "Point" Ty.pointFields [("x", .int .i32 0), ("y", .int .i32 y)] := by
  refine ⟨by decide, fun field member => ?_, fun _ => listed, fun pair member left => ?_⟩
  · rw [listed]
    exact List.mem_map_of_mem member
  · rcases List.mem_cons.mp member with rfl | member
    · exact ⟨_, rfl, rfl⟩
    · cases List.mem_singleton.mp member
      exact absurd left (Config.not_leavesOut required _)

theorem Config.decode_point :
    Config.points.encode (.point 0 5) = .ok [0xa1, 0x02, 0x05] ∧
      ∃ decoded, { Config.points with definiteLengths := false, preferLabels := false }.decode .point
        [0xa1, 0x02, 0x05] = .ok decoded ∧ decoded.canonical = (Value.point 0 5).canonical := by
  have encoded : Config.points.encode (.point 0 5) = .ok [0xa1, 0x02, 0x05] := by rfl
  have proper : ∀ descriptor ∈ Config.points.descriptors, descriptor.Proper := by
    intro descriptor member
    cases List.mem_singleton.mp member
    exact ⟨rfl, by decide, by decide, by decide⟩
  have carries : Config.points.Carries "Point" Ty.pointFields [("x", .int .i32 0), ("y", .int .i32 5)] :=
    ⟨Config.describes_point rfl rfl 5, fun framed => absurd framed (by decide)⟩
  exact ⟨encoded, Config.decode_encode ⟨rfl, proper, fun _ => rfl, fun _ => rfl⟩
    (Ty.holds_point carries rfl rfl) encoded (by decide)⟩

def Config.placedPoints : Config :=
  { descriptors := [⟨"Point", .keyed, some [],
      [⟨"x", none, [], [], false, false, some (.integer 0)⟩, ⟨"y", none, [], [], false, false, none⟩]⟩] }

-- An option that holds no option is read as no option, and in an array a field that is left out gives
-- its place to the next one.
theorem Config.decode_loses :
    ((Config.standard .fixed).Understands (Config.standard .fixed) ∧
      (Ty.option (.option .bool)).Holds (Config.standard .fixed).Describes (fun _ => True) (.some .none) ∧
      (Config.standard .fixed).encode (.some .none) = .ok [0xf6] ∧
      (Config.standard .fixed).decode (.option (.option .bool)) [0xf6] = .ok .none ∧
      Value.none.canonical ≠ (Value.some .none).canonical) ∧
    Config.placedPoints.Understands Config.placedPoints ∧
      Ty.point.Holds Config.placedPoints.Describes (fun _ => True) (.point 0 5) ∧
      Config.placedPoints.encode (.point 0 5) = .ok [0x9f, 0x05, 0xff] ∧
      Config.placedPoints.decode .point [0x9f, 0x05, 0xff] =
        .error (.length 1 "struct Point with 2 elements") := by
  have proper : ∀ descriptor ∈ Config.placedPoints.descriptors, descriptor.Proper := by
    intro descriptor member
    cases List.mem_singleton.mp member
    exact ⟨rfl, by decide, by decide, by decide⟩
  refine ⟨⟨?_, .some trivial (.none _), rfl, rfl, Value.noConfusion⟩, ?_, ?_, rfl, rfl⟩
  · exact ⟨rfl, fun _ member => absurd member List.not_mem_nil, fun _ => rfl, fun _ => rfl⟩
  · exact ⟨rfl, proper, fun _ => rfl, fun _ => rfl⟩
  · exact Ty.holds_point (Config.describes_point rfl rfl 5) rfl rfl

end
end TypedCbor
