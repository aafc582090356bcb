import TypedCbor.Proofs.ItemReader.Compounds

namespace TypedCbor

-- No record is to be a data map and an array at once. What the constructors of descriptors make never
-- is.
def Config.Regular (config : Config) : Prop :=
  ∀ name fields, (config.shape name .keyed fields).isArrayFramed = true →
    (config.shape name .keyed fields).kind ≠ .map

theorem Config.regular_of_kind {config : Config}
    (keyed : ∀ descriptor ∈ config.descriptors, descriptor.kind = .keyed) : config.Regular := by
  intro name fields _
  unfold Config.shape
  split
  · rename_i descriptor found
    simp [Shape.kind, keyed descriptor (List.mem_of_find?_eq_some found)]
  · simp [Shape.kind]

inductive ContentReader.Follows :
    ContentReader (DecodeM Value) → ContentReader (ItemReader Value) → Prop where
  | unit : ContentReader.Follows .unit .unit
  | content {form : String} {read : DecodeM Value} {told : ItemReader Value}
    (follows : TypedCbor.Follows read told) :
    ContentReader.Follows (.content form read) (.content form told)

structure VariantReader.Follows (variant : VariantReader (DecodeM Value))
    (told : VariantReader (ItemReader Value)) : Prop where
  name : variant.name = told.name
  content : variant.content.Follows told.content

namespace Decoder

variable {config : Config} {shape : Shape}

section
variable {fields : List (FieldReader (DecodeM Value))} {told : List (FieldReader (ItemReader Value))}

theorem mapM_complete (follows : List.Forall₂ FieldReader.Follows fields told)
    (seen : List (String × Value)) :
    fields.mapM (FieldReader.complete seen) = told.mapM (FieldReader.complete seen) := by
  induction follows with
  | nil => rfl
  | cons here _ ih =>
    simp only [List.mapM_cons, ih, FieldReader.complete, here.name, here.fallback, here.optional]

theorem map_name (follows : List.Forall₂ FieldReader.Follows fields told) :
    fields.map (·.name) = told.map (·.name) := by
  induction follows with
  | nil => rfl
  | cons here _ ih => simp only [List.map_cons, ih, here.name]

theorem follows_takeFields (follows : List.Forall₂ FieldReader.Follows fields told)
    (framed : shape.isArrayFramed = true) (plain : shape.kind ≠ .map) (expected : String) :
    FollowsItems shape (takeFields config expected 0 fields)
      (ItemReader.takeFields shape expected 0 told) :=
  fun _ _ readable => ⟨outcome_takeFields follows framed plain readable (Nat.le_refl _) 0
    (fun _ => Nat.zero_add _), fun _ _ found _ => ItemReader.mem_of_takeFields found⟩

theorem follows_keyedFields (follows : List.Forall₂ FieldReader.Follows fields told)
    (keyed : shape.hasKeys = true) :
    FollowsEntries shape (readFields config fields) fun entries =>
      ItemReader.complete told (ItemReader.placeEntries config shape told [] entries) := by
  intro framing entries readable rest
  refine ⟨0 + entries.length, ?_⟩
  have bound := length_entries_le_within framing entries rest
  have placed := outcome_placeEntries config framing follows keyed readable 0 []
    rest (Nat.lt_succ_of_le bound) bound
  rw [outcome_bind] at placed
  simp only [readFields, outcome_bind, outcome_get, ok_bind, fieldRounds_succ,
    outcome_nextElement_of_keyed keyed, placed, ItemReader.complete]
  cases ItemReader.placeEntries config shape told [] entries with
  | error e => rfl
  | ok seen =>
    simp only [ok_map, ok_bind, outcome_ofExcept, mapM_complete follows]
    cases told.mapM (FieldReader.complete seen) <;> rfl

theorem follows_positionedEntries (follows : List.Forall₂ FieldReader.Follows fields told)
    (data : shape.kind = .map) (plain : shape.isArrayFramed = false) :
    FollowsEntries shape (readFields config fields) fun entries =>
      ItemReader.complete told (ItemReader.placeItems shape told [] 0 (flattened entries)) := by
  intro framing entries readable rest
  refine ⟨(flattened entries).length, ?_⟩
  have each : ∀ item ∈ flattened entries, item.Readable := by
    intro item member
    obtain ⟨entry, present, rfl | rfl⟩ := mem_flattened.mp member
    · exact (readable entry present).1
    · exact (readable entry present).2
  have placed := outcome_placeItems config framing follows
    (by simp [Shape.hasKeys, data]) plain (fun _ => by rw [length_flattened]; omega) each
    (Nat.le_refl _) [] rest (Nat.lt_succ_of_le (length_le_within framing _ rest))
  have opens : standing shape framing (flattened entries).length (flattened entries).length =
      ⟨shape, framing.announced entries.length, 0⟩ := by
    simp [standing, Shape.units, data, length_flattened]
  have ends : standing shape framing (flattened entries).length 0 =
      ⟨shape, framing.announced 0, (flattened entries).length⟩ := by
    simp [standing, Shape.units]
  rw [opens, ends, Nat.sub_self] at placed
  simp only [readFields, outcome_bind, outcome_get, ok_bind, placed, ItemReader.complete]
  cases ItemReader.placeItems shape told [] 0 (flattened entries) with
  | error e => rfl
  | ok seen =>
    simp only [ok_map, ok_bind, outcome_ofExcept, mapM_complete follows]
    cases told.mapM (FieldReader.complete seen) <;> rfl

theorem follows_positionedItems (follows : List.Forall₂ FieldReader.Follows fields told)
    (unkeyed : shape.hasKeys = false) (data : shape.kind ≠ .map) (plain : shape.isArrayFramed = false) :
    FollowsItems shape (readFields config fields) fun items =>
      (·, []) <$> ItemReader.complete told (ItemReader.placeItems shape told [] 0 items) := by
  intro framing items readable
  refine ⟨fun rest => ?_, fun values left found item member => ?_⟩
  · have placed := outcome_placeItems config framing follows unkeyed plain
      (absurd · data) readable (Nat.le_refl _) [] rest
      (Nat.lt_succ_of_le (length_le_within framing items rest))
    rw [Nat.sub_self] at placed
    simp only [readFields, outcome_bind, outcome_get, ok_bind, placed, ItemReader.complete]
    cases ItemReader.placeItems shape told [] 0 items with
    | error e => rfl
    | ok seen =>
      simp only [ok_map, ok_bind, outcome_ofExcept, mapM_complete follows]
      cases told.mapM (FieldReader.complete seen) <;> rfl
  · obtain ⟨values, -, same⟩ := map_eq_ok.mp found
    cases same
    cases member

theorem outcome_enclosed_record (follows : List.Forall₂ FieldReader.Follows fields told)
    (regular : shape.isArrayFramed = true → shape.kind ≠ .map) (expected : String) {item : Item}
    (readable : item.Readable) (own : List UInt64) (rest : Bytes) :
    outcome (enclosed config shape
        (if shape.isArrayFramed then takeFields config expected 0 fields else readFields config fields)
        (item.body.header, own)) ⟨item.body.content ++ rest, none, []⟩ =
      (·, ⟨rest, none, []⟩) <$>
        ItemReader.recordFields config shape expected told own item.body := by
  unfold ItemReader.recordFields
  by_cases framed : shape.isArrayFramed = true
  · have array : shape.header.1 = .array := by
      simp [Shape.header, Shape.hasKeys, framed, regular framed]
    rw [if_pos framed, if_pos framed]
    exact (follows_takeFields follows framed (regular framed) expected).enclosed config array readable own rest
  · have plain : shape.isArrayFramed = false := by simpa using framed
    rw [if_neg framed, if_neg framed]
    by_cases keyed : shape.hasKeys = true
    · rw [if_pos keyed]
      exact (follows_keyedFields follows keyed).enclosed config (by simp [Shape.header, keyed]) readable own rest
    · rw [if_neg keyed]
      by_cases data : shape.kind = .map
      · rw [if_pos data]
        exact (follows_positionedEntries follows data plain).enclosed config (by simp [Shape.header, data])
          readable own rest
      · rw [if_neg data]
        exact (follows_positionedItems follows (by simpa using keyed) data plain).enclosed
          config (by simp [Shape.header, data, keyed]) readable own rest

theorem readRecord_eq (name expected : String) : readRecord config name expected fields =
    readHeader config >>= fun opening =>
      Value.record name <$> enclosed config (config.shape name .keyed (fields.map (·.name)))
        (if (config.shape name .keyed (fields.map (·.name))).isArrayFramed then
          takeFields config (withElements expected fields.length) 0 fields
        else readFields config fields) opening := by
  simp only [readRecord, beginStructure, bind_assoc]
  congr
  funext opening
  rcases opening with ⟨header, own⟩
  rw [map_enclosed]
  congr
  funext s
  split <;> rfl

theorem follows_readRecord (regular : config.Regular)
    (follows : List.Forall₂ FieldReader.Follows fields told) (name expected : String) :
    Follows (readRecord config name expected fields) (ItemReader.record config name expected told) := by
  rw [readRecord_eq]
  intro item readable
  refine FollowsAt.behindTags readable.formed fun own rest => ?_
  rw [outcome_map, outcome_enclosed_record follows (regular name _) _ readable, map_name follows,
    follows.length_eq]
  cases ItemReader.recordFields config _ _ told own item.body <;> rfl

end

section
variable {variants : List (VariantReader (DecodeM Value))}
  {told : List (VariantReader (ItemReader Value))}

theorem map_variantName (follows : List.Forall₂ VariantReader.Follows variants told) :
    variants.map (·.name) = told.map (·.name) := by
  induction follows with
  | nil => rfl
  | cons here _ ih => simp only [List.map_cons, ih, here.name]

theorem contentOf_follows (follows : List.Forall₂ VariantReader.Follows variants told) (name : String) :
    (∃ e, contentOf variants name = .error e ∧ contentOf told name = .error e) ∨
      ∃ content twin, contentOf variants name = .ok content ∧ contentOf told name = .ok twin ∧
        content.Follows twin := by
  have found : (variants.find? (·.name == name) = none ∧ told.find? (·.name == name) = none) ∨
      ∃ variant twin, variants.find? (·.name == name) = some variant ∧
        told.find? (·.name == name) = some twin ∧ variant.Follows twin := by
    induction follows with
    | nil => exact .inl ⟨rfl, rfl⟩
    | @cons variant twin variants told here _ ih =>
      simp only [List.find?_cons, here.name]
      split
      · exact .inr ⟨variant, twin, rfl, rfl, here⟩
      · exact ih
  unfold contentOf
  rcases found with ⟨none, none'⟩ | ⟨variant, twin, found, found', here⟩
  · exact .inl ⟨_, by rw [none], by rw [none', map_variantName follows]⟩
  · exact .inr ⟨variant.content, twin.content, by rw [found], by rw [found'], here.content⟩

theorem follows_readBareVariant (config : Config)
    (follows : List.Forall₂ VariantReader.Follows variants told) :
    Follows (readBareVariant config variants) (ItemReader.bareVariant config told) := by
  refine follows_readText.andThen fun payload decoder => ?_
  simp only [outcome_bind, outcome_ofExcept]
  rcases contentOf_follows follows payload.text with
    ⟨e, failed, failed'⟩ | ⟨content, twin, found, found', here⟩
  · rw [failed, failed']
    rfl
  · rw [found, found']
    cases here <;> rfl

def pairInside (config : Config) (variants : List (VariantReader (DecodeM Value)))
    (s : OpenStructure) : DecodeM (Value × OpenStructure) := do
  match ← nextElement config s with
  | (none, _) => throw (.unsupported .variantWithoutName)
  | (some _, s) =>
    let name := (← readText config).text
    match ← ofExcept (contentOf variants name) with
    | .unit =>
      let (second, s) ← nextElement config s
      passOver second
      return (.unitVariant name, s)
    | .content _ read =>
      match ← nextElement config s with
      | (none, _) => throw (.unsupported (.variantWithoutValue name))
      | (some _, s) =>
        let value ← read
        return (.variant name value, s)

theorem readVariantPair_eq (config : Config) (variants : List (VariantReader (DecodeM Value))) :
    readVariantPair config variants =
      readHeader config >>= enclosed config .polymorphic (pairInside config variants) := by
  simp only [readVariantPair, beginStructure, bind_assoc]
  congr
  funext opening
  simp only [enclosed, pairInside, bind_assoc]
  congr
  funext s
  congr
  funext next
  rcases next with ⟨index, s⟩
  cases index with
  | none => rfl
  | some index =>
    simp only [bind_assoc]
    congr
    funext payload
    congr
    funext content
    cases content with
    | unit => simp only [bind_assoc, pure_bind]
    | content form read =>
      simp only [bind_assoc]
      congr
      funext next
      rcases next with ⟨index, s⟩
      cases index with
      | none => rfl
      | some index => simp only [bind_assoc, pure_bind]

theorem follows_pairInside (config : Config)
    (follows : List.Forall₂ VariantReader.Follows variants told) :
    FollowsItems .polymorphic (pairInside config variants) (ItemReader.variantPair config told) := by
  intro framing items readable
  refine ⟨fun rest => ?_, fun value left found item => ItemReader.mem_of_variantPair config found⟩
  cases items with
  | nil =>
    rw [pairInside, outcome_bind, List.length_nil,
      outcome_nextElement_nil rfl (absurd · (by decide))]
    rfl
  | cons tag items =>
    obtain ⟨first, readable⟩ := List.forall_mem_cons.mp readable
    rw [pairInside, outcome_bind, outcome_nextElement_cons rfl first.formed
      (absurd · (by decide)) (by simp), ok_bind]
    simp only [outcome_bind, (follows_readText tag first).facing, ItemReader.variantPair,
      outcome_ofExcept]
    change (_ <$> (ItemReader.text config).on none tag >>= _) = _
    cases (ItemReader.text config).on none tag with
    | error e => rfl
    | ok payload =>
      simp only [ok_map, ok_bind]
      rcases contentOf_follows follows payload.text with
        ⟨e, failed, failed'⟩ | ⟨content, twin, found, found', here⟩
      · rw [failed, failed']
        rfl
      · simp only [found, found', ok_map, ok_bind]
        cases here with
        | unit =>
          cases items with
          | nil =>
            simp only [outcome_bind]
            rw [List.length_nil,
              outcome_nextElement_nil rfl (absurd · (by decide))]
            rfl
          | cons second items =>
            obtain ⟨second', -⟩ := List.forall_mem_cons.mp readable
            simp only [outcome_bind]
            rw [outcome_nextElement_cons rfl second'.formed
              (absurd · (by decide)) (by simp only [List.length_cons]; omega), ok_bind]
            simp only [passOver, facing, outcome_cursor,
              Cursor.outcome_skipItem second'.wellFormed second'.small]
            rfl
        | @content form read inner follows =>
          cases items with
          | nil =>
            simp only [outcome_bind]
            rw [List.length_nil,
              outcome_nextElement_nil rfl (absurd · (by decide))]
            rfl
          | cons second items =>
            obtain ⟨second', -⟩ := List.forall_mem_cons.mp readable
            simp only [outcome_bind]
            rw [outcome_nextElement_cons rfl second'.formed
              (absurd · (by decide)) (by simp only [List.length_cons]; omega), ok_bind]
            simp only [outcome_bind, (follows second second').facing]
            change (_ <$> inner.on none second >>= _) = _
            cases inner.on none second <;> rfl

theorem follows_readVariant (follows : List.Forall₂ VariantReader.Follows variants told) :
    Follows (readVariant config variants) (ItemReader.variant config told) := by
  intro item readable field pending rest
  have formed := readable.formed
  have major : item.bare.firstMajor = item.body.major := rfl
  have peeked := Cursor.outcome_peekMajor_item formed.bare rest
  rw [Item.bytes_bare, major] at peeked
  have bare := follows_readBareVariant config follows item.bare readable.bare field
    (pending ++ item.tagNumbers) rest
  have pair : outcome (readVariantPair config variants)
      ⟨bodyBytes item.body ++ rest, field, pending ++ item.tagNumbers⟩ =
        (·, ⟨rest, none, []⟩) <$> ItemReader.behindTags config
          (ItemReader.arrayed config .polymorphic (ItemReader.variantPair config told)) field
          (pending ++ item.tagNumbers) item.body := by
    have inside : FollowsAt
        (readHeader config >>= enclosed config .polymorphic (pairInside config variants))
        (ItemReader.behindTags config
          (ItemReader.arrayed config .polymorphic (ItemReader.variantPair config told))) item.bare :=
      FollowsAt.behindTags formed.bare fun own rest =>
        (follows_pairInside config follows).enclosed config rfl readable.bare own rest
    rw [← readVariantPair_eq] at inside
    have done := inside field (pending ++ item.tagNumbers) rest
    rwa [Item.bytes_bare, Item.tagNumbers_bare, List.append_nil] at done
  simp only [Item.bytes_bare, Item.tagNumbers_bare, List.append_nil, Item.body_bare] at bare
  simp only [readVariant, outcome_bind, outcome_readAhead formed, ok_bind, outcome_cursor, peeked,
    ok_map, ItemReader.variant]
  cases found : item.body with
  | text form => rw [found] at bare; exact bare
  | array framing items => rw [found] at pair; exact pair
  | unsigned | negative | bytes | map | simple | embedded => rfl

end
end Decoder
end TypedCbor
