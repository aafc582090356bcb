import TypedCbor.Proofs.Places.Resumed

namespace TypedCbor

open Decoder

theorem slots_eq_map (config : Config) (types : List Ty) :
    slots config types = types.map fun type => ⟨type.read config, type.ofByte⟩ := by
  induction types with
  | nil => rfl
  | cons type types ih => rw [slots, ih, List.map_cons]

theorem drop_slots_of_lt (config : Config) {types : List Ty} {index : Nat} (inside : index < types.length) :
    (slots config types).drop index =
      ⟨types[index].read config, types[index].ofByte⟩ :: (slots config types).drop (index + 1) := by
  rw [slots_eq_map, List.drop_eq_getElem_cons (by simpa using inside), List.getElem_map]

theorem drop_slots_of_le (config : Config) {types : List Ty} {index : Nat} (behind : types.length ≤ index) :
    (slots config types).drop index = [] := by
  rwa [slots_eq_map, List.drop_eq_nil_iff, List.length_map]

def Field.decoder (config : Config) (field : Field Ty) : FieldReader (DecodeM Value) :=
  ⟨field.name, field.type.read config, field.fallback, field.type.isOption⟩

theorem fieldReaders_eq_map (config : Config) (fields : List (Field Ty)) :
    fieldReaders config fields = fields.map (Field.decoder config) := by
  induction fields with
  | nil => rfl
  | cons field fields ih => rw [fieldReaders, ih, List.map_cons, Field.decoder]

theorem length_fieldReaders (config : Config) (fields : List (Field Ty)) :
    (fieldReaders config fields).length = fields.length := by
  rw [fieldReaders_eq_map, List.length_map]

theorem drop_fieldReaders_of_lt (config : Config) {fields : List (Field Ty)} {index : Nat}
    (inside : index < fields.length) :
    (fieldReaders config fields).drop index =
      fields[index].decoder config :: (fieldReaders config fields).drop (index + 1) := by
  rw [fieldReaders_eq_map, List.drop_eq_getElem_cons (by simpa using inside), List.getElem_map]

theorem drop_fieldReaders_of_le (config : Config) {fields : List (Field Ty)} {index : Nat}
    (behind : fields.length ≤ index) : (fieldReaders config fields).drop index = [] := by
  rwa [List.drop_eq_nil_iff, length_fieldReaders]

theorem find?_fieldReaders (config : Config) (fields : List (Field Ty)) (name : String) :
    (fieldReaders config fields).find? (·.name == name) =
      (fields.find? (·.name == name)).map (Field.decoder config) := by
  rw [fieldReaders_eq_map, List.find?_map]
  rfl

theorem map_name_fieldReaders (config : Config) (fields : List (Field Ty)) :
    (fieldReaders config fields).map (·.name) = fields.map Field.name := by
  rw [fieldReaders_eq_map, List.map_map]
  rfl

section
variable {config : Config}

theorem bind_pure_eq_map {α β γ : Type} (read : DecodeM (α × β)) (f : α → γ) (decoder : Decoder) :
    outcome (do let (a, b) ← read; return (f a, b)) decoder =
      (fun q => ((f q.1.1, q.1.2), q.2)) <$> outcome read decoder := by
  rw [outcome_bind]
  cases outcome read decoder <;> rfl

theorem unrolls_elements (config : Config) (type : Ty) :
    Unrolls config (fun _ _ => some type) (fun (_ : Unit) _ _ => True) fun _ s =>
      readElements config (type.read config) s := by
  refine ⟨fun {x others s index s' _} _ known _ => ?_⟩
  cases known
  refine ⟨fun _ => (), List.cons, fun _ => trivial, fun decoder after found => ?_⟩
  have first := length_le_of_nextElement found
  change outcome (elementRounds config _ (decoder.rest.length + 1) s) decoder = _
  rw [elementRounds, outcome_bind, found, ok_bind]
  dsimp only
  rw [outcome_bind]
  cases read : outcome (type.read config) after with
  | error e => rfl
  | ok p =>
    have moves := type.delimits.moves config
    have second := moves _ _ _ read
    rw [ok_bind, ok_bind, bind_pure_eq_map, outcome_congr (elementRounds_agree moves (fun _ _ => rfl) (Nat.le_refl _)
      (show p.2.rest.length < decoder.rest.length by omega) (Nat.lt_succ_self _))]
    rfl

theorem index_of_unkeyed {s s' : OpenStructure} {decoder after : Decoder} {index : Nat}
    (unkeyed : s.shape.hasKeys = false)
    (found : outcome (nextElement config s) decoder = .ok ((some index, s'), after)) :
    index = s.index ∧ s' = s.advanced := by
  obtain ⟨-, ⟨none, -⟩ | ⟨same, advances, -⟩⟩ := next_of_unkeyed unkeyed found
  · cases none
  · exact ⟨Option.some.inj same, advances⟩

theorem unrolls_fill (config : Config) (expected : String) (types : List Ty) :
    Unrolls config (fun _ index => types[index]?)
      (fun (filled : Nat) _ s => s.shape = .list ∧ s.index = filled) fun filled s =>
        fillFromElements config expected filled ((slots config types).drop filled) s := by
  refine ⟨fun {filled others s index s' type} fit known goes => ?_⟩
  obtain ⟨list, rfl⟩ := fit
  obtain ⟨_, _, announced⟩ := goes
  obtain ⟨rfl, rfl⟩ := index_of_unkeyed (by rw [list]; rfl) announced
  obtain ⟨inside, rfl⟩ := List.getElem?_eq_some_iff.mp known
  refine ⟨fun _ => s.index + 1, List.cons, fun _ => ⟨list, rfl⟩, fun decoder after found => ?_⟩
  rw [drop_slots_of_lt config inside, fillFromElements, outcome_bind, found, ok_bind]
  dsimp only
  rw [outcome_bind]
  cases outcome (types[s.index].read config) after with
  | error e => rfl
  | ok p => rw [ok_bind, ok_bind, bind_pure_eq_map]

def entriesFrom (config : Config) (key value : DecodeM Value) :
    Option Value → OpenStructure → DecodeM (List (Value × Value) × OpenStructure)
  | none, s => readEntries config key value s
  | some k, s => entryValue config value (readEntries config key value) k s

theorem unrolls_entries (config : Config) (keys values : Ty) :
    Unrolls config (fun _ index => some (if index % 2 = 0 then keys else values))
      (fun (x : Option Value) _ s => s.shape = .map ∧ s.index % 2 = if x.isSome then 1 else 0)
      (entriesFrom config (keys.read config) (values.read config)) := by
  refine ⟨fun {x others s index s' type} fit known goes => ?_⟩
  obtain ⟨map, parity⟩ := fit
  obtain ⟨_, _, announced⟩ := goes
  obtain ⟨rfl, rfl⟩ := index_of_unkeyed (by rw [map]; rfl) announced
  have keysMove := keys.delimits.moves config
  have valuesMove := values.delimits.moves config
  cases x with
  | none =>
    replace parity : s.index % 2 = 0 := parity
    rw [if_pos parity] at known
    cases known
    refine ⟨some, fun _ rest => rest, fun _ => ⟨map, ?_⟩, fun decoder after found => ?_⟩
    · simp only [OpenStructure.advanced, Option.isSome_some, if_true]
      omega
    have first := length_le_of_nextElement found
    change outcome (entryRounds config _ _ (decoder.rest.length + 1) s) decoder = _
    rw [entryRounds, outcome_bind, found, ok_bind]
    dsimp only
    rw [outcome_bind]
    cases read : outcome (keys.read config) after with
    | error e => rfl
    | ok p =>
      have second := keysMove _ _ _ read
      -- Behind the key there are rounds to spare.
      have agree : ∀ s (next : Decoder), next.rest.length < p.2.rest.length →
          entryRounds config (keys.read config) (values.read config) decoder.rest.length s next =
            readEntries config (keys.read config) (values.read config) s next :=
        fun s next shorter => entryRounds_agree keysMove valuesMove (fun _ _ => rfl) (fun _ _ => rfl)
          (Nat.le_refl _) (by omega) (Nat.lt_succ_self _)
      refine (outcome_congr (entryValue_agree valuesMove (fun _ _ => rfl) agree p.1 s.advanced)).trans ?_
      rw [ok_bind, entriesFrom]
      cases outcome (entryValue config (values.read config) _ p.1 s.advanced) p.2 <;> rfl
  | some k =>
    replace parity : s.index % 2 = 1 := parity
    rw [if_neg (by omega)] at known
    cases known
    refine ⟨fun _ => none, fun v rest => (k, v) :: rest, fun _ => ⟨map, ?_⟩, fun decoder after found => ?_⟩
    · simp only [OpenStructure.advanced, Option.isSome_none, Bool.false_eq_true, if_false]
      omega
    rw [entriesFrom, entryValue, outcome_bind, found, ok_bind]
    dsimp only
    rw [outcome_bind]
    cases outcome (values.read config) after with
    | error e => rfl
    | ok p => rw [ok_bind, ok_bind, bind_pure_eq_map, entriesFrom]

theorem unrolls_places (config : Config) (expected : String) (fields : List (Field Ty)) {shape : Shape}
    (framed : shape.isArrayFramed = true) :
    Unrolls config (fun _ index => (fields[index]?).map Field.type)
      (fun (taken : Nat) _ s => s.shape = shape ∧ s.index = taken) fun taken s =>
        takeFields config expected taken ((fieldReaders config fields).drop taken) s := by
  refine ⟨fun {taken others s index s' type} fit known goes => ?_⟩
  obtain ⟨rfl, rfl⟩ := fit
  obtain ⟨_, _, announced⟩ := goes
  obtain ⟨rfl, rfl⟩ := index_of_unkeyed (by simp [Shape.hasKeys, framed]) announced
  obtain ⟨field, found, rfl⟩ := Option.map_eq_some_iff.mp known
  obtain ⟨inside, rfl⟩ := List.getElem?_eq_some_iff.mp found
  refine ⟨fun _ => s.index + 1, fun value rest => (fields[s.index].name, value) :: rest, fun _ => ⟨rfl, rfl⟩,
    fun decoder after found => ?_⟩
  rw [drop_fieldReaders_of_lt config inside, takeFields, outcome_bind, found, ok_bind]
  dsimp only [Field.decoder]
  rw [outcome_bind]
  cases outcome (fields[s.index].type.read config) after with
  | error e => rfl
  | ok p => rw [ok_bind, ok_bind, bind_pure_eq_map]

def placeFields (config : Config) (fields : List (FieldReader (DecodeM Value))) (seen : List (String × Value))
    (s : OpenStructure) : DecodeM (List (String × Value) × OpenStructure) := do
  let (seen, s) ← fieldRounds config fields ((← get).rest.length + 1) s seen
  return (← Decoder.ofExcept (fields.mapM (FieldReader.complete seen)), s)

theorem outcome_placeFields (fields : List (FieldReader (DecodeM Value))) (seen : List (String × Value))
    (s : OpenStructure) (decoder : Decoder) :
    outcome (placeFields config fields seen s) decoder =
      outcome (fieldRounds config fields (decoder.rest.length + 1) s seen) decoder >>= fun q =>
        (fun values => ((values, q.1.2), q.2)) <$> fields.mapM (FieldReader.complete q.1.1) := by
  simp only [placeFields, outcome_bind, outcome_get, ok_bind, outcome_ofExcept]
  cases outcome (fieldRounds config fields (decoder.rest.length + 1) s seen) decoder with
  | error e => rfl
  | ok q =>
    rw [ok_bind, ok_bind]
    cases fields.mapM (FieldReader.complete q.1.1) <;> rfl

def placeAnnounced (config : Config) (fields : List (Field Ty)) (seen : List (String × Value)) :
    (Option Nat × OpenStructure) × Decoder → Except Error ((List (String × Value) × OpenStructure) × Decoder)
  | ((none, s), after) =>
    (fun values => ((values, s), after)) <$> (fieldReaders config fields).mapM (FieldReader.complete seen)
  | ((some index, s), after) =>
    let name := s.shape.elementName index
    match fields.find? (·.name == name) with
    | some field =>
      if (seen.lookup name).isSome then .error (.mismatch (.duplicateField name))
      else outcome (field.type.read config) after >>= fun p =>
        outcome (placeFields config (fieldReaders config fields) ((name, p.1) :: seen) s) p.2
    | none => outcome readIgnored after >>= fun p =>
      outcome (placeFields config (fieldReaders config fields) seen s) p.2

theorem placeFields_eq (fields : List (Field Ty)) (seen : List (String × Value)) (s : OpenStructure)
    (decoder : Decoder) :
    outcome (placeFields config (fieldReaders config fields) seen s) decoder =
      outcome (nextElement config s) decoder >>= placeAnnounced config fields seen := by
  have moves : ∀ field ∈ fieldReaders config fields, Moves field.read := by
    intro field member
    rw [fieldReaders_eq_map] at member
    obtain ⟨field, -, rfl⟩ := List.mem_map.mp member
    exact field.type.delimits.moves config
  rw [outcome_placeFields, fieldRounds, outcome_bind]
  cases found : outcome (nextElement config s) decoder with
  | error e => rfl
  | ok p =>
    rcases p with ⟨⟨_ | index, s'⟩, after⟩
    · rfl
    have first : after.rest.length ≤ decoder.rest.length := length_le_of_nextElement found
    -- Behind a value there are rounds to spare.
    have others : ∀ (seen : List (String × Value)) (next : Decoder), next.rest.length < after.rest.length →
        outcome (fieldRounds config (fieldReaders config fields) decoder.rest.length s' seen) next =
          outcome (fieldRounds config (fieldReaders config fields) (next.rest.length + 1) s' seen) next :=
      fun seen next shorter => fieldRounds_enough moves (by omega) (Nat.lt_succ_self _)
    rw [ok_bind, ok_bind]
    dsimp only [placeAnnounced]
    rw [find?_fieldReaders]
    cases fields.find? (·.name == s'.shape.elementName index) with
    | none =>
      simp only [Option.map_none, outcome_bind, outcome_discard]
      cases read : outcome readIgnored after with
      | error e => rfl
      | ok p =>
        have shorter := delimits_readIgnored.moves config _ _ _ read
        simp only [ok_map, ok_bind, others seen p.2 shorter, outcome_placeFields]
    | some field =>
      simp only [Option.map_some, outcome_ite]
      split
      · rfl
      · simp only [outcome_bind, Field.decoder]
        cases read : outcome (field.type.read config) after with
        | error e => rfl
        | ok p =>
          have shorter := field.type.delimits.moves config _ _ _ read
          simp only [ok_bind, others _ p.2 shorter, outcome_placeFields]

-- The fields that were placed are those that were announced.
def Placed (shape : Shape) (fields : List (Field Ty)) (seen : List (String × Value)) (others : List Nat) : Prop :=
  ∀ field ∈ fields, (seen.lookup field.name).isSome = others.any (shape.elementName · == field.name)

section
variable {shape : Shape} {fields : List (Field Ty)} {seen : List (String × Value)} {others : List Nat} {index : Nat}

theorem Placed.passed (placed : Placed shape fields seen others)
    (unknown : fields.find? (·.name == shape.elementName index) = none) :
    Placed shape fields seen (index :: others) := by
  intro field member
  have other := List.find?_eq_none.mp unknown field member
  have differs : (shape.elementName index == field.name) = false := by
    rw [BEq.comm]
    exact Bool.eq_false_iff.mpr other
  rw [List.any_cons, differs, Bool.false_or, placed field member]

theorem Placed.added (placed : Placed shape fields seen others) (value : Value) :
    Placed shape fields ((shape.elementName index, value) :: seen) (index :: others) := by
  intro field member
  rw [List.lookup_cons, List.any_cons, ← placed field member, BEq.comm]
  cases shape.elementName index == field.name <;> rfl

theorem Placed.free (placed : Placed shape fields seen others) {field : Field Ty}
    (known : fields.find? (·.name == shape.elementName index) = some field)
    (fresh : others.any (shape.elementName · == shape.elementName index) = false) :
    (seen.lookup (shape.elementName index)).isSome = false := by
  have named : field.name = shape.elementName index := by simpa using List.find?_some known
  rw [← named, placed field (List.mem_of_find?_eq_some known), named, fresh]

end

theorem unrolls_fields (config : Config) (name expected : String) (fields : List (Field Ty))
    (plain : (config.recordShape name fields).isArrayFramed = false) :
    Unrolls config (Target.part config (.record name expected fields))
      (fun (seen : List (String × Value)) others s => s.shape = config.recordShape name fields ∧
        Placed (config.recordShape name fields) fields seen others)
      (placeFields config (fieldReaders config fields)) := by
  refine ⟨fun {seen others s index s' type} fit known goes => ?_⟩
  obtain ⟨shape, placed⟩ := fit
  obtain ⟨_, _, announced⟩ := goes
  have shape' := (shape_of_nextElement announced).trans shape
  simp only [Target.part, plain, Bool.false_eq_true, if_false] at known
  cases place : fields.find? (·.name == (config.recordShape name fields).elementName index) with
  | none =>
    rw [place] at known
    cases known
    refine ⟨fun _ => seen, fun _ values => values, fun _ => ⟨shape', placed.passed place⟩,
      fun decoder after found => ?_⟩
    rw [placeFields_eq, found, ok_bind, placeAnnounced, shape', place, Ty.read]
    cases outcome readIgnored after with
    | error e => rfl
    | ok p =>
      rw [ok_bind, ok_bind]
      cases outcome (placeFields config (fieldReaders config fields) seen s') p.2 <;> rfl
  | some field =>
    rw [place] at known
    dsimp only at known
    split at known
    · cases known
    · rename_i fresh
      cases known
      have free := placed.free place (Bool.eq_false_iff.mpr fresh)
      refine ⟨fun value => ((config.recordShape name fields).elementName index, value) :: seen,
        fun _ values => values, fun value => ⟨shape', placed.added value⟩, fun decoder after found => ?_⟩
      rw [placeFields_eq, found, ok_bind, placeAnnounced, shape', place]
      dsimp only
      rw [if_neg (by simp [free])]
      cases outcome (field.type.read config) after with
      | error e => rfl
      | ok p =>
        rw [ok_bind, ok_bind]
        cases outcome (placeFields config (fieldReaders config fields) _ s') p.2 <;> rfl

end
end TypedCbor
