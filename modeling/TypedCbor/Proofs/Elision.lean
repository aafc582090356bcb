import TypedCbor.Proofs.RoundTrip

namespace TypedCbor

-- A described record whose fields are told apart from what stands in for them: a field that is written
-- does not hold what its type has for it where it is missing.
structure Config.Discerns (config : Config) (name : String) (fields : List (Field Ty))
    (values : List (String × Value)) : Prop extends config.Describes name fields values where
  written : ∀ pair ∈ fields.zip values,
    ¬config.LeavesOut ((config.recordShape name fields).elementNamed pair.1.name) pair.2.2 →
      ∀ value, pair.1.standIn (config.recordShape name fields).isArrayFramed = some value →
        value.canonical ≠ pair.2.2.canonical

namespace Value

theorem canonicalFields_eq (fields : List (String × Value)) :
    canonicalFields fields = fields.map fun field => (field.1, field.2.canonical) := by
  induction fields with
  | nil => rfl
  | cons field fields ih =>
    rcases field with ⟨name, value⟩
    rw [canonicalFields, ih, List.map_cons]

end Value

namespace ItemReader

theorem standIn_of_takeFields {shape : Shape} {config : Config} {expected : String}
    {fields : List (Field Ty)} {taken : Nat} {items left : List Item} {decoded : List (String × Value)}
    (found : takeFields shape expected taken (itemFields config fields) items = .ok (decoded, left))
    {index : Nat} (behind : items.length ≤ index) {field : Field Ty} (here : fields[index]? = some field) :
    ∃ value, field.standIn true = some value ∧ decoded[index]? = some (field.name, value) := by
  induction fields generalizing taken items decoded index with
  | nil => cases here
  | cons first fields ih =>
    rcases first with ⟨name, type, fallback⟩
    cases items with
    | nil =>
      rw [itemFields, takeFields] at found
      cases standard : fallback with
      | none =>
        rw [standard] at found
        cases found
      | some value =>
        rw [standard] at found
        obtain ⟨⟨others, left'⟩, rest, same⟩ := bind_eq_ok.mp found
        cases same
        cases index with
        | zero =>
          cases here
          exact ⟨value, by rw [Field.standIn, standard], rfl⟩
        | succ index => exact ih rest (Nat.zero_le index) here
    | cons item items =>
      obtain ⟨value, -, found⟩ := bind_eq_ok.mp found
      obtain ⟨⟨others, left'⟩, rest, same⟩ := bind_eq_ok.mp found
      cases same
      cases index with
      | zero => exact absurd behind (by simp)
      | succ index => exact ih rest (Nat.le_of_succ_le_succ behind) here

end ItemReader

open ItemReader

variable {source target : Config} {shape : Shape}

theorem exists_last_written (keyed : ∀ descriptor ∈ source.descriptors, descriptor.kind = .keyed)
    {values : List (String × Value)} {kept : List (Element × Item)}
    (found : fieldItems source shape values = .ok kept)
    (any : ∃ entry ∈ values, ¬source.LeavesOut (shape.elementNamed entry.1) entry.2) :
    ∃ index entry, values[index]? = some entry ∧
      ¬source.LeavesOut (shape.elementNamed entry.1) entry.2 ∧ kept.length ≤ index + 1 := by
  induction values generalizing kept with
  | nil =>
    obtain ⟨entry, member, -⟩ := any
    cases member
  | cons first values ih =>
    rcases first with ⟨name, value⟩
    obtain ⟨item, others, -, rest, cases'⟩ := fieldItems_cons_cases keyed found
    have most : kept.length ≤ others.length + 1 := by
      rcases cases' with ⟨-, rfl⟩ | ⟨-, rfl⟩
      · exact Nat.le_succ _
      · exact Nat.le_refl _
    by_cases later : ∃ entry ∈ values, ¬source.LeavesOut (shape.elementNamed entry.1) entry.2
    · obtain ⟨index, entry, here, written, bound⟩ := ih rest later
      exact ⟨index + 1, entry, here, written, by omega⟩
    · have leftOut : ∀ entry ∈ values, source.LeavesOut (shape.elementNamed entry.1) entry.2 := by
        intro entry member
        by_contra written
        exact later ⟨entry, member, written⟩
      have none : others = [] := fieldItems_of_leftOut keyed leftOut rest
      obtain ⟨entry, member, written⟩ := any
      rcases List.mem_cons.mp member with rfl | member
      · exact ⟨0, _, rfl, written, by simpa [none] using most⟩
      · exact absurd (leftOut entry member) written

theorem exists_written_behind (keyed : ∀ descriptor ∈ source.descriptors, descriptor.kind = .keyed)
    {values : List (String × Value)} {kept : List (Element × Item)}
    (found : fieldItems source shape values = .ok kept)
    (mixed : ¬values.Pairwise fun earlier later =>
      source.LeavesOut (shape.elementNamed earlier.1) earlier.2 →
        source.LeavesOut (shape.elementNamed later.1) later.2) :
    ∃ index entry, values[index]? = some entry ∧
      ¬source.LeavesOut (shape.elementNamed entry.1) entry.2 ∧ kept.length ≤ index := by
  induction values generalizing kept with
  | nil => exact absurd List.Pairwise.nil mixed
  | cons first values ih =>
    rcases first with ⟨name, value⟩
    rw [List.pairwise_cons] at mixed
    obtain ⟨item, others, -, rest, ⟨leftOut, rfl⟩ | ⟨here, rfl⟩⟩ := fieldItems_cons_cases keyed found
    · have later : ∃ entry ∈ values, ¬source.LeavesOut (shape.elementNamed entry.1) entry.2 := by
        by_contra none
        have all : ∀ entry ∈ values, source.LeavesOut (shape.elementNamed entry.1) entry.2 := by
          intro entry member
          by_contra written
          exact none ⟨entry, member, written⟩
        apply mixed
        exact ⟨fun entry member _ => all entry member,
          List.pairwise_of_forall_mem_list fun _ _ entry member _ => all entry member⟩
      obtain ⟨index, entry, position, written, bound⟩ := exists_last_written keyed rest later
      exact ⟨index + 1, entry, position, written, bound⟩
    · have mixed' : ¬values.Pairwise _ := fun others => mixed ⟨fun _ _ left => absurd left here, others⟩
      obtain ⟨index, entry, position, written, bound⟩ := ih rest mixed'
      exact ⟨index + 1, entry, position, written, Nat.succ_le_succ bound⟩

theorem takeFields_of_decoded (same : target.descriptors = source.descriptors) {name : String}
    {fields : List (Field Ty)} {values : List (String × Value)}
    (framed : (source.recordShape name fields).isArrayFramed = true) {item : Item}
    (made : (Value.record name values).item source {} = .ok item) {decoded : Value}
    (read : (Ty.ofItem target (.record name fields)).on none item = .ok decoded) :
    ∃ kept entries expected, fieldItems source (source.recordShape name fields) values = .ok kept ∧
      takeFields (source.recordShape name fields) expected 0 (itemFields target fields)
        (kept.map fun pair => pair.1.valueItem source pair.2) = .ok (entries, []) ∧
      decoded = .record name entries := by
  obtain ⟨kept, found, rfl⟩ := map_eq_ok.mp made
  have elements : (source.shape name .keyed []).elementNamed =
      (source.recordShape name fields).elementNamed := source.elementNamed_shape name .keyed [] _
  rw [fieldItems_congr elements] at found
  obtain ⟨tags, tagged⟩ := Option.isSome_iff_exists.mp framed
  have framing : (source.shape name .keyed []).arrayTags = some tags :=
    (source.arrayTags_shape name .keyed [] (fields.map Field.name)).trans tagged
  have array : Item.record source (source.shape name .keyed []) kept =
      (Item.array source (kept.map fun pair => pair.1.valueItem source pair.2)).tagged tags := by
    rw [Item.record, framing]
  have shape : target.shape name .keyed ((itemFields target fields).map (·.name)) =
      source.recordShape name fields := by
    rw [names_itemFields, Config.shape_congr same]
    rfl
  rw [array, Ty.ofItem, ItemReader.on, ItemReader.record, shape] at read
  obtain ⟨own, -, read⟩ := bind_eq_ok.mp read
  obtain ⟨entries, inside, rfl⟩ := map_eq_ok.mp read
  rw [recordFields, if_pos framed] at inside
  obtain ⟨_, -, inside⟩ := bind_eq_ok.mp inside
  obtain ⟨⟨entries', left⟩, taken, inside⟩ := bind_eq_ok.mp inside
  obtain ⟨_, ended, same⟩ := bind_eq_ok.mp inside
  cases same
  cases left with
  | nil => exact ⟨kept, entries, _, found, taken, rfl⟩
  | cons first left =>
    exfalso
    revert ended
    rw [Config.framing]
    split <;> exact fun ended => by cases ended

-- A record that is an array comes back exactly if nothing is written behind what is left out of it.
theorem Config.decode_encode_arrayed_iff (understands : target.Understands source) {name : String}
    {fields : List (Field Ty)} {values : List (String × Value)}
    (discerns : source.Discerns name fields values) (conveyed : source.ConveysFields fields values)
    (framed : (source.recordShape name fields).isArrayFramed = true) {output : Bytes}
    (encoded : source.encode (.record name values) = .ok output) (small : output.length < 2 ^ 64) :
    (∃ decoded, target.decode (.record name fields) output = .ok decoded ∧
        decoded.canonical = (Value.record name values).canonical) ↔
      values.Pairwise fun earlier later =>
        source.LeavesOut ((source.recordShape name fields).elementNamed earlier.1) earlier.2 →
          source.LeavesOut ((source.recordShape name fields).elementNamed later.1) later.2 := by
  obtain ⟨item, made, rfl, readable⟩ := Config.readable_of_encode understands.accords.keyed encoded small
  constructor
  · rintro ⟨decoded, read, same⟩
    rw [Config.decode_bytes understands.accords.regular _ readable] at read
    obtain ⟨kept, entries, expected, found, taken, rfl⟩ :=
      takeFields_of_decoded understands.same framed made read
    by_contra mixed
    obtain ⟨index, entry, position, written, behind⟩ :=
      exists_written_behind understands.accords.keyed found mixed
    -- The field has no item of its own, so it was given what stands in for it.
    obtain ⟨field, here, named⟩ : ∃ field, fields[index]? = some field ∧ field.name = entry.1 := by
      have names := congrArg (·[index]?) (names_of_holdFields conveyed)
      simp only [List.getElem?_map, position, Option.map_some] at names
      obtain ⟨field, here, named⟩ := Option.map_eq_some_iff.mp names.symm
      exact ⟨field, here, named⟩
    obtain ⟨value, standsIn, given⟩ :=
      standIn_of_takeFields taken (by rwa [List.length_map]) here
    have paired : (field, entry) ∈ fields.zip values :=
      List.mem_of_getElem? (List.getElem?_zip_eq_some.mpr ⟨here, position⟩)
    refine discerns.written (field, entry) paired (by rwa [named]) value (framed ▸ standsIn) ?_
    rw [Value.canonical, Value.canonical, Value.canonicalFields_eq, Value.canonicalFields_eq] at same
    have there := congrArg (·[index]?) (Value.record.inj same).2
    simp only [List.getElem?_map, given, position, Option.map_some] at there
    exact congrArg Prod.snd (Option.some.inj there)
  · intro trailing
    have carries : source.Carries name fields values := ⟨discerns.toDescribes, fun _ => trailing⟩
    exact Config.decode_item understands (.record carries conveyed) made readable

section
def Config.originPoints : Config :=
  { descriptors := [⟨"Point", .keyed, some [],
      [⟨"x", none, [], [], false, false, some (.integer 0)⟩,
        ⟨"y", none, [], [], false, false, some (.integer 0)⟩]⟩] }

def Ty.originFields : List (Field Ty) :=
  [⟨"x", .int .i32, some (.int .i32 0)⟩, ⟨"y", .int .i32, some (.int .i32 0)⟩]

theorem Config.understands_originPoints : Config.originPoints.Understands Config.originPoints := by
  refine ⟨rfl, fun descriptor member => ?_, fun _ => rfl, fun _ => rfl⟩
  cases List.mem_singleton.mp member
  exact ⟨rfl, by decide, by decide, by decide⟩

theorem Config.leavesOut_origin {field : String} (here : field = "x" ∨ field = "y") :
    Config.originPoints.LeavesOut
      ((Config.originPoints.recordShape "Point" Ty.originFields).elementNamed field) (.int .i32 0) := by
  rcases here with rfl | rfl
  · exact ⟨rfl, .integer 0, rfl, rfl⟩
  · exact ⟨rfl, .integer 0, rfl, rfl⟩

theorem Config.writes_five {field : String} (here : field = "x" ∨ field = "y") :
    ¬Config.originPoints.LeavesOut
      ((Config.originPoints.recordShape "Point" Ty.originFields).elementNamed field) (.int .i32 5) := by
  rintro ⟨-, standard, declared, encoded⟩
  rcases here with rfl | rfl
  all_goals
    cases declared
    exact absurd encoded (by decide)

theorem Config.discerns_originPoints {x y : Int} (zeroOrFive : ∀ n ∈ [x, y], n = 0 ∨ n = 5) :
    Config.originPoints.Discerns "Point" Ty.originFields [("x", .int .i32 x), ("y", .int .i32 y)] := by
  have coordinate : ∀ pair ∈ Ty.originFields.zip [("x", Value.int .i32 x), ("y", Value.int .i32 y)],
      (pair.1.name = "x" ∨ pair.1.name = "y") ∧ pair.1.fallback = some (.int .i32 0) ∧
        ∃ n ∈ [x, y], pair.2.2 = .int .i32 n := by
    intro pair member
    rcases List.mem_cons.mp member with rfl | member
    · exact ⟨.inl rfl, rfl, x, by simp, rfl⟩
    · cases List.mem_singleton.mp member
      exact ⟨.inr rfl, rfl, y, by simp, rfl⟩
  refine ⟨⟨by decide, by decide, fun _ => rfl, fun pair member left => ?_⟩, fun pair member written => ?_⟩
  · obtain ⟨named, fallback, n, here, holds⟩ := coordinate pair member
    rw [holds] at left ⊢
    rcases zeroOrFive n here with rfl | rfl
    · exact ⟨_, by rw [Field.standIn, fallback], rfl⟩
    · exact absurd left (Config.writes_five named)
  · obtain ⟨named, fallback, n, here, holds⟩ := coordinate pair member
    rw [holds] at written ⊢
    rcases zeroOrFive n here with rfl | rfl
    · exact absurd (Config.leavesOut_origin named) written
    · intro value standsIn
      rw [Field.standIn, fallback] at standsIn
      cases standsIn
      exact fun same => by cases same

theorem Config.conveys_originPoints (x y : Int) (xHeld : IntKind.i32.holds x = true)
    (yHeld : IntKind.i32.holds y = true) :
    Config.originPoints.ConveysFields Ty.originFields [("x", .int .i32 x), ("y", .int .i32 y)] :=
  .cons (.int xHeld) (.cons (.int yHeld) .nil)

theorem Config.decode_originPoint :
    (∃ decoded, Config.originPoints.decode (.record "Point" Ty.originFields) [0x9f, 0x05, 0xff] =
        .ok decoded ∧ decoded.canonical = (Value.point 5 0).canonical) ∧
      ¬∃ decoded, Config.originPoints.decode (.record "Point" Ty.originFields) [0x9f, 0x05, 0xff] =
        .ok decoded ∧ decoded.canonical = (Value.point 0 5).canonical := by
  have first : Config.originPoints.encode (.point 5 0) = .ok [0x9f, 0x05, 0xff] := by rfl
  have second : Config.originPoints.encode (.point 0 5) = .ok [0x9f, 0x05, 0xff] := by rfl
  constructor
  · refine (Config.decode_encode_arrayed_iff Config.understands_originPoints
      (Config.discerns_originPoints (by simp)) (Config.conveys_originPoints 5 0 rfl rfl) rfl first
      (by decide)).mpr ?_
    refine List.pairwise_cons.mpr ⟨fun entry _ left => ?_, List.pairwise_singleton _ _⟩
    exact absurd left (Config.writes_five (.inl rfl))
  · intro back
    have trailing := (Config.decode_encode_arrayed_iff Config.understands_originPoints
      (Config.discerns_originPoints (by simp)) (Config.conveys_originPoints 0 5 rfl rfl) rfl second
      (by decide)).mp back
    have behind := (List.pairwise_cons.mp trailing).1 ("y", .int .i32 5) (by simp)
    exact Config.writes_five (.inr rfl) (behind (Config.leavesOut_origin (.inl rfl)))

-- Two points, each as described and with all its flags on, have the same bytes, and one of them is read
-- as the other.
theorem Config.decode_otherPoint :
    Config.originPoints.Understands Config.originPoints ∧
      Config.originPoints.encodeDefaults = false ∧
      Config.originPoints.Discerns "Point" Ty.originFields [("x", .int .i32 0), ("y", .int .i32 5)] ∧
      Config.originPoints.ConveysFields Ty.originFields [("x", .int .i32 0), ("y", .int .i32 5)] ∧
      (Config.originPoints.recordShape "Point" Ty.originFields).isArrayFramed = true ∧
      Config.originPoints.encode (.point 0 5) = .ok [0x9f, 0x05, 0xff] ∧
      Config.originPoints.encode (.point 5 0) = .ok [0x9f, 0x05, 0xff] ∧
      Config.originPoints.decode (.record "Point" Ty.originFields) [0x9f, 0x05, 0xff] =
        .ok (.point 5 0) ∧
      (Value.point 5 0).canonical ≠ (Value.point 0 5).canonical := by
  refine ⟨Config.understands_originPoints, rfl, Config.discerns_originPoints (by simp),
    Config.conveys_originPoints 0 5 rfl rfl, rfl, rfl, rfl, rfl, ?_⟩
  simp [Value.point, Value.canonicalFields_eq]

end
end TypedCbor
