import TypedCbor.Proofs.Places.Visited

namespace TypedCbor

structure Entry where
  key : Item
  value : Bytes

namespace Entry

def bytes (entry : Entry) : Bytes := entry.key.bytes ++ entry.value

-- The value of a field, or nothing if the record passes over the entry: nobody knows its key, or the type has
-- no such field.
inductive Tells (config : Config) (shape : Shape) (fields : List (Field Ty)) (entry : Entry) :
    Option (String × Value) → Prop where
  | field {index : Nat} {field : Field Ty} {value : Value} (formed : entry.key.Formed)
      (announced : ItemReader.announced config shape entry.key = .ok (some index))
      (known : fields.find? (·.name == shape.elementName index) = some field)
      (read : outcome (field.type.read config) ⟨entry.value, some (shape.element index), []⟩ =
        .ok (value, ⟨[], none, []⟩)) :
      Tells config shape fields entry (some (shape.elementName index, value))
  | passed {found : Option Nat} (formed : entry.key.Formed)
      (announced : ItemReader.announced config shape entry.key = .ok found)
      (unknown : ∀ index ∈ found, fields.find? (·.name == shape.elementName index) = none)
      (skipped : outcome Cursor.skipItem entry.value = .ok ((), [])) :
      Tells config shape fields entry none

theorem Tells.formed {config : Config} {shape : Shape} {fields : List (Field Ty)} {entry : Entry}
    {told : Option (String × Value)} (tells : entry.Tells config shape fields told) : entry.key.Formed := by
  cases tells with
  | field formed | passed formed => exact formed

end Entry

section
variable {config : Config} {shape : Shape} {key : Item}

theorem ItemReader.announced_eq_some {index : Nat} :
    ItemReader.announced config shape key = .ok (some index) ↔ ∃ name, key.body.key = .ok name ∧
      name.resolve shape = some index ∧
        Decoder.acceptsKeyTags config (shape.element index) key.tagNumbers = true := by
  unfold ItemReader.announced
  cases key.body.key with
  | error e => simp
  | ok name =>
    simp only [ok_bind, Except.ok.injEq, exists_eq_left']
    cases name.resolve shape with
    | none => by_cases ignores : config.ignoreUnknownKeys = true <;> simp [ignores, pure, Except.pure]
    | some found =>
      by_cases accepts : Decoder.acceptsKeyTags config (shape.element found) key.tagNumbers = true
      · simp only [accepts, if_true, pure, Except.pure, Except.ok.injEq, Option.some.injEq]
        exact ⟨fun same => ⟨same, same ▸ accepts⟩, fun same => same.1⟩
      · simp only [accepts, Option.some.injEq]
        exact ⟨fun refused => (nomatch refused), fun ⟨same, accepted⟩ => absurd (same ▸ accepted) accepts⟩

theorem ItemReader.announced_eq_none :
    ItemReader.announced config shape key = .ok none ↔ ∃ name, key.body.key = .ok name ∧
      name.resolve shape = none ∧ config.ignoreUnknownKeys = true := by
  unfold ItemReader.announced
  cases key.body.key with
  | error e => simp
  | ok name =>
    simp only [ok_bind, Except.ok.injEq, exists_eq_left']
    cases name.resolve shape with
    | none => by_cases ignores : config.ignoreUnknownKeys = true <;> simp [ignores, pure, Except.pure]
    | some found =>
      by_cases accepts : Decoder.acceptsKeyTags config (shape.element found) key.tagNumbers = true <;>
        simp [accepts, pure, Except.pure]

end

def addTold (seen : List (String × Value)) : Option (String × Value) → Except Error (List (String × Value))
  | none => .ok seen
  | some (name, value) =>
    if (seen.lookup name).isSome then .error (.mismatch (.duplicateField name)) else .ok ((name, value) :: seen)

def addAll (seen : List (String × Value)) (told : List (Option (String × Value))) :
    Except Error (List (String × Value)) := told.foldlM addTold seen

def OpenStructure.past (s : OpenStructure) (count : Nat) : OpenStructure :=
  { s with remaining := s.remaining.map (· - count), index := s.index + count }

theorem OpenStructure.past_zero (s : OpenStructure) : s.past 0 = s := by
  rcases s with ⟨shape, remaining, index⟩
  cases remaining <;> rfl

theorem OpenStructure.advanced_of_keyed {s : OpenStructure} (keyed : s.shape.hasKeys = true) :
    s.advanced = s.past 1 := by
  rcases s with ⟨shape, remaining, index⟩
  unfold advanced
  rw [Decoder.isAtValue_of_keyed keyed]
  rfl

theorem OpenStructure.past_past (s : OpenStructure) (first others : Nat) :
    (s.past first).past others = s.past (others + first) := by
  rcases s with ⟨shape, remaining, index⟩
  cases remaining with
  | none => simp [past, Nat.add_assoc, Nat.add_comm first]
  | some count => simp [past, Nat.add_assoc, Nat.add_comm first, Nat.sub_sub]

theorem Decoder.outcome_cursor_clear {read : ReadM α} {input rest : Bytes} {a : α}
    (ran : outcome read input = .ok (a, rest)) :
    outcome (Decoder.cursor read) ⟨input, none, []⟩ = .ok (a, ⟨rest, none, []⟩) := by
  rw [Decoder.outcome_cursor, ran]
  rfl

theorem Cursor.length_le_of_skipItem {input rest : Bytes} (skipped : outcome skipItem input = .ok ((), rest)) :
    rest.length ≤ input.length :=
  Takes.length_le takes_skipItem (Decoder.outcome_cursor_clear skipped)

theorem Ty.read_append {config : Config} (type : Ty) {taken : Bytes} {field : Option Element} {value : Value}
    (read : outcome (type.read config) ⟨taken, field, []⟩ = .ok (value, ⟨[], none, []⟩)) (rest : Bytes) :
    outcome (type.read config) ⟨taken ++ rest, field, []⟩ = .ok (value, ⟨rest, none, []⟩) := by
  obtain ⟨_, split, law⟩ := type.delimits.takes (.refl config) _ _ _ read
  rw [List.append_nil] at split
  cases split
  exact law.whole rest False.elim

theorem OpenStructure.enough_past {s : OpenStructure} {count : Nat}
    (enough : ∀ all ∈ s.remaining, count + 1 ≤ all) : ∀ all ∈ (s.past 1).remaining, count ≤ all := by
  intro left member
  obtain ⟨all, counted, rfl⟩ := Option.map_eq_some_iff.mp member
  have bound := enough all counted
  omega

theorem Cursor.skipItem_append {value : Bytes} (skipped : outcome skipItem value = .ok ((), [])) (rest : Bytes) :
    outcome skipItem (value ++ rest) = .ok ((), rest) := by
  obtain ⟨taken, split, law⟩ := takes_skipItem _ _ _ (Decoder.outcome_cursor_clear skipped)
  rw [List.append_nil] at split
  cases split
  obtain ⟨_, ran, same⟩ := Decoder.rest_of_cursor (law.whole rest False.elim)
  cases same
  exact ran

namespace Decoder

variable {config : Config}

theorem outcome_readIgnored (decoder : Decoder) :
    outcome readIgnored decoder =
      (fun p => (.visited .ignored .unit, ⟨p.2, none, []⟩)) <$> outcome Cursor.skipItem decoder.rest := by
  simp only [readIgnored, outcome_bind, outcome_modify, ok_bind, outcome_cursor]
  cases outcome Cursor.skipItem decoder.rest <;> rfl

theorem outcome_nextElement_key {s : OpenStructure} (keyed : s.shape.hasKeys = true)
    (more : s.remaining ≠ some 0) {key : Item} (formed : key.Formed) (rest : Bytes) :
    outcome (nextElement config s) ⟨key.bytes ++ rest, none, []⟩ =
      (do
        match ← ItemReader.announced config s.shape key with
        | some index => .ok ((some index, s.past 1), ⟨rest, some (s.shape.element index), []⟩)
        | none =>
          let (_, rest) ← outcome Cursor.skipItem rest
          outcome (nextElement config (s.past 1)) ⟨rest, none, []⟩) := by
  have going : outcome (isExhausted s) (key.bytes ++ rest) = .ok (false, key.bytes ++ rest) := by
    obtain ⟨byte, tail, opens, going, -⟩ := Item.bytes_eq_cons formed
    unfold isExhausted
    rw [isAtValue_of_keyed keyed]
    cases counted : s.remaining with
    | none => simp [opens, going]
    | some count =>
      rw [counted] at more
      simpa using more
  have enough (decoder : Decoder) (rounds : Nat) (fewer : decoder.rest.length < rounds) :
      outcome (nextByKey config rounds (s.past 1)) decoder = outcome (nextElement config (s.past 1)) decoder := by
    unfold nextElement
    rw [if_pos (show (s.past 1).shape.hasKeys = true from keyed), outcome_bind, outcome_get, ok_bind]
    exact nextByKey_enough fewer (Nat.lt_succ_self _)
  rw [nextElement, if_pos keyed, outcome_bind, outcome_get, ok_bind, nextByKey_succ]
  simp only [outcome_bind, outcome_cursor, going, ok_map, ok_bind, Bool.false_eq_true, if_false,
    Cursor.outcome_readTags_item formed, outcome_readKey formed.head formed.chunks,
    OpenStructure.advanced_of_keyed keyed, ItemReader.announced, behindKey]
  cases key.body.key with
  | error e => rfl
  | ok found =>
    simp only [ok_map, ok_bind]
    cases found.resolve s.shape with
    | some index =>
      simp only [outcome_ite]
      split <;> rfl
    | none =>
      simp only [outcome_ite]
      split
      · simp only [outcome_bind, outcome_cursor]
        cases skipped : outcome Cursor.skipItem rest with
        | error e => rfl
        | ok p =>
          have shorter := Cursor.length_le_of_skipItem skipped
          have some := key.length_bytes_pos
          exact enough ⟨p.2, none, []⟩ _ (by simp only [List.length_append]; omega)
      · rfl

section
variable {fields : List (Field Ty)} {s : OpenStructure} (keyed : s.shape.hasKeys = true)
include keyed

theorem outcome_placeFields_entry (more : s.remaining ≠ some 0) {entry : Entry} {told : Option (String × Value)}
    (tells : entry.Tells config s.shape fields told) (seen : List (String × Value)) (rest : Bytes) :
    outcome (placeFields config (fieldReaders config fields) seen s) ⟨entry.bytes ++ rest, none, []⟩ =
      (do
        let seen ← addTold seen told
        outcome (placeFields config (fieldReaders config fields) seen (s.past 1)) ⟨rest, none, []⟩) := by
  rw [placeFields_eq, Entry.bytes, List.append_assoc, outcome_nextElement_key keyed more tells.formed]
  cases tells with
  | @field index field value _ announced known read =>
    rw [announced]
    change placeAnnounced config fields seen ((some index, s.past 1), _) = _
    rw [placeAnnounced, show (s.past 1).shape = s.shape from rfl, known, addTold]
    dsimp only
    split
    · rfl
    · rw [field.type.read_append read, ok_bind, ok_bind]
  | @passed found _ announced unknown skipped =>
    rw [announced]
    cases found with
    | none =>
      simp only [ok_bind, Cursor.skipItem_append skipped, addTold]
      rw [placeFields_eq]
    | some index =>
      change placeAnnounced config fields seen ((some index, s.past 1), _) = _
      rw [placeAnnounced, show (s.past 1).shape = s.shape from rfl, unknown index rfl, addTold]
      simp only [outcome_readIgnored, Cursor.skipItem_append skipped, ok_map, ok_bind]

theorem outcome_placeFields_entries {entries : List Entry} {told : List (Option (String × Value))}
    (tells : List.Forall₂ (Entry.Tells config s.shape fields) entries told)
    (enough : ∀ count ∈ s.remaining, entries.length ≤ count) (seen : List (String × Value)) (rest : Bytes) :
    outcome (placeFields config (fieldReaders config fields) seen s)
        ⟨entries.flatMap Entry.bytes ++ rest, none, []⟩ =
      (do
        let seen ← addAll seen told
        outcome (placeFields config (fieldReaders config fields) seen (s.past entries.length)) ⟨rest, none, []⟩) := by
  generalize shaped : s.shape = shape at tells
  induction tells generalizing s seen with
  | nil => rw [addAll, List.foldlM_nil, pure_bind, List.length_nil, s.past_zero, List.flatMap_nil, List.nil_append]
  | @cons entry told entries others here _ ih =>
    have more : s.remaining ≠ some 0 := fun none => absurd (enough 0 none) (by simp)
    subst shaped
    rw [List.flatMap_cons, List.append_assoc, outcome_placeFields_entry keyed more here, addAll,
      List.foldlM_cons, bind_assoc]
    cases addTold seen told with
    | error e => rfl
    | ok seen =>
      rw [ok_bind, ok_bind, @ih (s.past 1) keyed (OpenStructure.enough_past enough) _ rfl, s.past_past,
        List.length_cons]
      rfl

end

end Decoder
end TypedCbor
