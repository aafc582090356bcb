import TypedCbor.Proofs.RoundTrip

namespace TypedCbor

-- A class in a map, without objects and defaults. Nothing says which of the fields it lists.
structure Config.Lists (config : Config) (name : String) (fields : List (Field Ty)) : Prop where
  distinct : (fields.map Field.name).Nodup
  keyed : (config.recordShape name fields).arrayTags = none
  plain : ∀ element ∈ (config.recordShape name fields).elements,
    element.object = false ∧ element.declaredDefault = none

-- Values of the fields that can be written and that come back, each by itself.
structure Config.Keeps (source target : Config) (name : String) (fields : List (Field Ty))
    (values : List (String × Value)) : Prop where
  names : values.map Prod.fst = fields.map Field.name
  written : ∀ entry ∈ values, source.Writes ((source.recordShape name fields).elementNamed entry.1) entry.2
  returns : ∀ pair ∈ fields.zip values, pair.2.2.Returns source target (pair.1.type.ofItem target)

open ItemReader

section
variable {source target : Config} {name : String} {fields : List (Field Ty)} {values : List (String × Value)}

namespace Config.Lists

theorem plain_elementNamed (lists : source.Lists name fields) (field : String) :
    ((source.recordShape name fields).elementNamed field).object = false ∧
      ((source.recordShape name fields).elementNamed field).declaredDefault = none := by
  rcases (source.recordShape name fields).elementNamed_mem_or field with listed | unlisted
  · exact lists.plain _ listed
  · rw [unlisted]
    exact ⟨rfl, rfl⟩

theorem not_leavesOut (lists : source.Lists name fields) (field : String) (value : Value) :
    ¬source.LeavesOut ((source.recordShape name fields).elementNamed field) value :=
  Config.not_leavesOut (lists.plain_elementNamed field).2 value

end Config.Lists

theorem item_listed (accords : target.Accords source) (lists : source.Lists name fields)
    (keeps : source.Keeps target name fields values) :
    ∃ kept, fieldItems source (source.recordShape name fields) values = .ok kept ∧
      (Value.record name values).item source {} = .ok (Item.map source
        (kept.map fun pair => (pair.1.keyItem source, pair.1.valueItem source pair.2))) := by
  obtain ⟨kept, made⟩ := exists_fieldItems accords.keyed keeps.written
  have elements : (source.shape name .keyed []).elementNamed = (source.recordShape name fields).elementNamed :=
    source.elementNamed_shape name .keyed [] _
  have framing : (source.shape name .keyed []).arrayTags = none :=
    (source.arrayTags_shape name .keyed [] _).trans lists.keyed
  refine ⟨kept, made, ?_⟩
  rw [Value.item, fieldItems_congr elements, made, ok_map, Item.record, framing]

theorem decode_listed (accords : target.Accords source) (lists : source.Lists name fields)
    {kept : List (Element × Item)}
    (readable : (Item.map source
      (kept.map fun pair => (pair.1.keyItem source, pair.1.valueItem source pair.2))).Readable) :
    target.decode (.record name fields) (Item.map source
        (kept.map fun pair => (pair.1.keyItem source, pair.1.valueItem source pair.2))).bytes =
      .record name <$> complete (itemFields target fields) (placeEntries target
        (source.recordShape name fields) (itemFields target fields) []
        (kept.map fun pair => (pair.1.keyItem source, pair.1.valueItem source pair.2))) := by
  have shape : target.shape name .keyed ((itemFields target fields).map (·.name)) =
      source.recordShape name fields := by
    rw [names_itemFields, accords.shape]
    rfl
  rw [Config.decode_bytes accords.regular _ readable, Ty.ofItem, ItemReader.record, shape]
  change Value.record name <$> recordFields target _ _ _ [] _ = _
  rw [recordFields_map accords lists.keyed readable]

theorem complete_listed_iff (accords : target.Accords source) (lists : source.Lists name fields)
    (keeps : source.Keeps target name fields values)
    (passes : ∀ entry ∈ values, (source.recordShape name fields).indexOfName entry.1 = none →
      target.ignoreUnknownKeys = true)
    {kept : List (Element × Item)} (made : fieldItems source (source.recordShape name fields) values = .ok kept)
    (readable : ∀ pair ∈ kept, pair.2.Readable) :
    (∃ decoded, complete (itemFields target fields) (placeEntries target
        (source.recordShape name fields) (itemFields target fields) []
        (kept.map fun pair => (pair.1.keyItem source, pair.1.valueItem source pair.2))) = .ok decoded ∧
      Value.canonicalFields decoded = Value.canonicalFields values) ↔
      ∀ pair ∈ fields.zip values, (source.recordShape name fields).indexOfName pair.1.name = none →
        ∃ value, pair.1.standIn false = some value ∧ value.canonical = pair.2.2.canonical := by
  have distinct : (source.recordShape name fields).Distinct :=
    Config.distinct_shape accords.distinct lists.distinct
  have each : ∀ entry ∈ values, Placeable source target (source.recordShape name fields)
      (itemFields target fields) entry ∨
        (source.recordShape name fields).indexOfName entry.1 = none ∧ target.ignoreUnknownKeys = true := by
    intro entry member
    obtain ⟨field, present, named, paired⟩ := exists_field keeps.names member
    rcases entry with ⟨_, value⟩
    cases named
    by_cases listed : field.name ∈ (source.recordShape name fields).elements.map Element.name
    · have returns := (keeps.returns _ paired).inElement accords (lists.plain_elementNamed field.name).1
      exact .inl (placeable_field distinct lists.distinct present listed returns)
    · have unlisted := Shape.indexOfName_eq_none_iff.mpr listed
      exact .inr ⟨unlisted, passes _ member unlisted⟩
  have unique : (values.map Prod.fst).Nodup := by
    rw [keeps.names]
    exact lists.distinct
  have fresh : ∀ entry ∈ values, List.lookup entry.1 ([] : List (String × Value)) = none :=
    fun _ _ => rfl
  obtain ⟨placed, done, entries⟩ := placeEntries_return accords distinct each unique made readable fresh
  rw [complete, done, ok_bind, complete_iff keeps.names placed]
  refine forall₂_congr fun pair member => ?_
  obtain ⟨field, ⟨other, value⟩⟩ := pair
  have named : field.name = other := name_of_mem_zip keeps.names member
  cases named
  rw [complete_of_settled (entries.settled _ (List.of_mem_zip member).2)]
  have untold : Untold source (source.recordShape name fields) (field.name, value) ↔
      (source.recordShape name fields).indexOfName field.name = none :=
    or_iff_right (lists.not_leavesOut field.name value)
  rw [untold]

-- What is written of a record whose descriptor lists some of its fields comes back if and only if every
-- field that it does not list is passed over and has anyway what stands in for it.
theorem Config.decode_encode_listed_iff (accords : target.Accords source)
    (lists : source.Lists name fields) (keeps : source.Keeps target name fields values) :
    ∃ output, source.encode (.record name values) = .ok output ∧ (output.length < 2 ^ 64 →
      ((∃ decoded, target.decode (.record name fields) output = .ok decoded ∧
          decoded.canonical = (Value.record name values).canonical) ↔
        ∀ pair ∈ fields.zip values,
          pair.1.name ∉ (source.recordShape name fields).elements.map Element.name →
            target.ignoreUnknownKeys = true ∧
              ∃ value, pair.1.standIn false = some value ∧ value.canonical = pair.2.2.canonical)) := by
  obtain ⟨kept, made, built⟩ := item_listed accords lists keeps
  have encoded := Config.encode_eq_wire accords.keyed (.record name values)
  rw [built, ok_map] at encoded
  refine ⟨_, encoded, fun small => ?_⟩
  obtain ⟨item, built', same, readable⟩ := Config.readable_of_encode accords.keyed encoded small
  cases Except.ok.inj (built.symm.trans built')
  rw [same]
  have inside : ∀ pair ∈ kept, pair.2.Readable := fun pair member =>
    (Item.readable_entries readable _ (List.mem_map_of_mem member)).2.of_tagged
  have unlisted (field : String) := @Shape.indexOfName_eq_none_iff (source.recordShape name fields) field
  rw [decode_listed accords lists readable]
  constructor
  · rintro ⟨decoded, read, canonical⟩
    obtain ⟨given, completed, rfl⟩ := map_eq_ok.mp read
    have canonicals := (Value.record.inj canonical).2
    have passes : ∀ entry ∈ values, (source.recordShape name fields).indexOfName entry.1 = none →
        target.ignoreUnknownKeys = true := by
      intro entry member unknown
      obtain ⟨placed, done, -⟩ := bind_eq_ok.mp completed
      exact ignoring_of_placeEntries accords.keyed made done member (lists.not_leavesOut _ _) unknown
    have restored :=
      (complete_listed_iff accords lists keeps passes made inside).mp ⟨given, completed, canonicals⟩
    intro pair member unknown
    have other := name_of_mem_zip keeps.names member
    refine ⟨passes pair.2 (List.of_mem_zip member).2 ?_, restored pair member ((unlisted _).mpr unknown)⟩
    rw [← other]
    exact (unlisted _).mpr unknown
  · intro condition
    have passes : ∀ entry ∈ values, (source.recordShape name fields).indexOfName entry.1 = none →
        target.ignoreUnknownKeys = true := by
      intro entry member unknown
      obtain ⟨field, -, named, paired⟩ := exists_field keeps.names member
      exact (condition _ paired ((unlisted _).mp (named.symm ▸ unknown))).1
    obtain ⟨given, completed, canonicals⟩ :=
      (complete_listed_iff accords lists keeps passes made inside).mpr fun pair member unknown =>
        (condition pair member ((unlisted _).mp unknown)).2
    exact ⟨_, map_eq_ok.mpr ⟨given, completed, rfl⟩, congrArg (Value.record name) canonicals⟩

end

section
def Config.abscissae : Config :=
  { descriptors := [⟨"Point", .keyed, none, [⟨"x", some 1, [5], [6], false, false, none⟩]⟩] }

def Ty.abscissaFields : List (Field Ty) := [⟨"x", .int .i32, none⟩, ⟨"y", .option (.int .i32), none⟩]

theorem Config.accords_abscissae {ignoring : Bool} :
    { Config.abscissae with ignoreUnknownKeys := ignoring }.Accords Config.abscissae := by
  have same {descriptor : Descriptor} (member : descriptor ∈ Config.abscissae.descriptors) :=
    List.mem_singleton.mp member
  refine ⟨rfl, fun _ member => ?_, fun _ member => ?_, fun _ => rfl, fun _ => rfl⟩
  · cases same member
    rfl
  · cases same member
    exact ⟨by decide, by decide⟩

theorem Config.lists_abscissae : Config.abscissae.Lists "Point" Ty.abscissaFields := by
  refine ⟨by decide, rfl, fun element member => ?_⟩
  cases List.mem_singleton.mp member
  exact ⟨rfl, rfl⟩

theorem Config.keeps_abscissae {target : Config} {y : Value}
    (written : Config.abscissae.Writes (.named "y") y)
    (returns : y.Returns Config.abscissae target ((Ty.option (.int .i32)).ofItem target)) :
    Config.abscissae.Keeps target "Point" Ty.abscissaFields [("x", .int .i32 1), ("y", y)] := by
  refine ⟨rfl, ?_, ?_⟩
  · exact List.forall_mem_cons.mpr ⟨⟨_, rfl⟩, List.forall_mem_singleton.mpr written⟩
  · exact List.forall_mem_cons.mpr ⟨Value.int_returns rfl, List.forall_mem_singleton.mpr returns⟩

theorem Config.keeps_ordinate (target : Config) :
    Config.abscissae.Keeps target "Point" Ty.abscissaFields
      [("x", .int .i32 1), ("y", .some (.int .i32 2))] := by
  refine Config.keeps_abscissae ⟨_, rfl⟩ ?_
  exact @Value.Returns.some _ _ (.int .i32) _ (Value.int_returns rfl) rfl

theorem Config.decode_abscissa :
    (Config.abscissae.encode (.record "Point" [("x", .int .i32 1), ("y", .some (.int .i32 2))]) =
        .ok [0xbf, 0xc5, 0x01, 0xc6, 0x01, 0x61, 0x79, 0x02, 0xff] ∧
      (¬∃ decoded, Config.abscissae.decode (.record "Point" Ty.abscissaFields)
        [0xbf, 0xc5, 0x01, 0xc6, 0x01, 0x61, 0x79, 0x02, 0xff] = .ok decoded ∧ decoded.canonical =
          (Value.record "Point" [("x", .int .i32 1), ("y", .some (.int .i32 2))]).canonical)) ∧
    ∃ decoded, { Config.abscissae with ignoreUnknownKeys := true }.decode (.record "Point" Ty.abscissaFields)
        [0xbf, 0xc5, 0x01, 0xc6, 0x01, 0x61, 0x79, 0xf6, 0xff] = .ok decoded ∧
      decoded.canonical = (Value.record "Point" [("x", .int .i32 1), ("y", .none)]).canonical := by
  constructor
  · have encoded : Config.abscissae.encode (.record "Point" [("x", .int .i32 1), ("y", .some (.int .i32 2))]) =
        .ok [0xbf, 0xc5, 0x01, 0xc6, 0x01, 0x61, 0x79, 0x02, 0xff] := by rfl
    obtain ⟨output, same, comes⟩ := Config.decode_encode_listed_iff Config.accords_abscissae
      Config.lists_abscissae (Config.keeps_ordinate Config.abscissae)
    cases Except.ok.inj (encoded.symm.trans same)
    refine ⟨encoded, fun returned => ?_⟩
    have told := (comes (by decide)).mp returned (⟨"y", .option (.int .i32), none⟩, ("y", .some (.int .i32 2)))
    exact absurd (told (by simp [Ty.abscissaFields]) (by decide)).1 (by decide)
  · have encoded : Config.abscissae.encode (.record "Point" [("x", .int .i32 1), ("y", .none)]) =
        .ok [0xbf, 0xc5, 0x01, 0xc6, 0x01, 0x61, 0x79, 0xf6, 0xff] := by rfl
    obtain ⟨output, same, comes⟩ := Config.decode_encode_listed_iff (@Config.accords_abscissae true)
      Config.lists_abscissae (Config.keeps_abscissae ⟨_, rfl⟩ (Value.none_returns (.int .i32)))
    cases Except.ok.inj (encoded.symm.trans same)
    refine (comes (by decide)).mpr fun pair member unlisted => ⟨rfl, ?_⟩
    rcases List.mem_pair.mp member with rfl | rfl
    · exact absurd (by decide) unlisted
    · exact ⟨.none, rfl, rfl⟩

theorem Config.decode_loses_ordinate :
    Config.abscissae.Accords Config.abscissae ∧
      Config.abscissae.Lists "Point" Ty.abscissaFields ∧
      Config.abscissae.Keeps Config.abscissae "Point" Ty.abscissaFields
        [("x", .int .i32 1), ("y", .some (.int .i32 2))] ∧
      Config.abscissae.encode (.record "Point" [("x", .int .i32 1), ("y", .some (.int .i32 2))]) =
        .ok [0xbf, 0xc5, 0x01, 0xc6, 0x01, 0x61, 0x79, 0x02, 0xff] ∧
      Config.abscissae.decode (.record "Point" Ty.abscissaFields)
        [0xbf, 0xc5, 0x01, 0xc6, 0x01, 0x61, 0x79, 0x02, 0xff] = .error (.unknownKey (.name "y")) ∧
      { Config.abscissae with ignoreUnknownKeys := true }.decode (.record "Point" Ty.abscissaFields)
        [0xbf, 0xc5, 0x01, 0xc6, 0x01, 0x61, 0x79, 0x02, 0xff] =
          .ok (.record "Point" [("x", .int .i32 1), ("y", .none)]) :=
  ⟨Config.accords_abscissae, Config.lists_abscissae, Config.keeps_ordinate _, rfl, rfl, rfl⟩

end
end TypedCbor
