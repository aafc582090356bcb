import TypedCbor.Proofs.ItemReader.Structures

namespace TypedCbor

theorem FieldReader.find?_follows {fields : List (FieldReader (DecodeM Value))}
    {told : List (FieldReader (ItemReader Value))}
    (follows : List.Forall₂ FieldReader.Follows fields told) (name : String) :
    (fields.find? (·.name == name) = none ∧ told.find? (·.name == name) = none) ∨
      ∃ field twin, fields.find? (·.name == name) = some field ∧
        told.find? (·.name == name) = some twin ∧ field.Follows twin := by
  induction follows with
  | nil => exact .inl ⟨rfl, rfl⟩
  | @cons field twin fields told here _ ih =>
    simp only [List.find?_cons, here.name]
    split
    · exact .inr ⟨field, twin, rfl, rfl, here⟩
    · exact ih

namespace Decoder

variable {config : Config} {shape : Shape} {framing : Framing} {total : Nat}

theorem outcome_readKey {body : Body Item} (fits : ∀ head ∈ body.head?, head.Fits)
    (chunks : ∀ chunk ∈ body.chunks, chunk.head.Fits) (rest : Bytes) :
    outcome readKey (bodyBytes body ++ rest) = (·, rest) <$> body.key := by
  have known := Body.header_major fits
  rw [readKey, outcome_bind, Cursor.outcome_readHeader_body fits, ok_bind]
  simp only [known]
  cases body with
  | unsigned head | negative head =>
    simp only [Body.major, Body.key, Body.header, Body.head?, openingHeader, Body.content]
    cases (head.header _).integer <;> rfl
  | text form =>
    have payload := @Cursor.outcome_readPayload .text form chunks (fun _ => rfl) rest
    simp only [Body.major, Body.key, Body.header, Body.head?, Body.content, outcome_bind, payload,
      ok_bind]
    cases Payload.text ⟨form.content, form.isWhole⟩ <;> rfl
  | bytes | array | map | simple | embedded => rfl

theorem isAtValue_of_keyed (keyed : shape.hasKeys = true) (remaining : Option Nat) (index : Nat) :
    OpenStructure.isAtValue ⟨shape, remaining, index⟩ = false := by
  simp only [Shape.hasKeys, Bool.and_eq_true, beq_iff_eq] at keyed
  simp [OpenStructure.isAtValue, keyed.1]

theorem outcome_nextByKey_nil (keyed : shape.hasKeys = true) (index : Nat) (rest : Bytes)
    (rounds : Nat) :
    outcome (nextByKey config (rounds + 1) ⟨shape, framing.announced 0, index⟩)
        (within framing [] rest) =
      .ok ((none, ⟨shape, framing.announced 0, index⟩), within framing [] rest) := by
  have ends : outcome (isExhausted ⟨shape, framing.announced 0, index⟩) (framing.closing ++ rest) =
      .ok (true, framing.closing ++ rest) := by
    unfold isExhausted
    rw [isAtValue_of_keyed keyed]
    cases framing <;> simp [Framing.announced, Framing.closing, Wire.closing]
  simp [nextByKey, within, itemsBytes, ends, clearField]

theorem outcome_nextByKey_cons {key value : Item} {entries : List (Item × Item)}
    (keyed : shape.hasKeys = true) (readable : key.Readable ∧ value.Readable) (index : Nat)
    (rest : Bytes) (rounds : Nat) :
    outcome (nextByKey config (rounds + 1) ⟨shape, framing.announced (entries.length + 1), index⟩)
        (within framing (key :: value :: flattened entries) rest) =
      (do
        match ← ItemReader.announced config shape key with
        | some found =>
          .ok ((some found, ⟨shape, framing.announced entries.length, index + 1⟩),
            facing (some (shape.element found)) value framing (flattened entries) rest)
        | none =>
          outcome (nextByKey config rounds ⟨shape, framing.announced entries.length, index + 1⟩)
            (within framing (flattened entries) rest)) := by
  rcases readable with ⟨readableKey, readableValue⟩
  have formed := readableKey.formed
  have going (more : Bytes) :
      outcome (isExhausted ⟨shape, framing.announced (entries.length + 1), index⟩)
        (key.bytes ++ more) = .ok (false, key.bytes ++ more) := by
    obtain ⟨byte, tail, opens, going, -⟩ := Item.bytes_eq_cons formed
    unfold isExhausted
    rw [isAtValue_of_keyed keyed]
    cases framing <;> simp [Framing.announced, opens, going]
  have advances : OpenStructure.advanced ⟨shape, framing.announced (entries.length + 1), index⟩ =
      ⟨shape, framing.announced entries.length, index + 1⟩ := by
    unfold OpenStructure.advanced
    rw [isAtValue_of_keyed keyed]
    cases framing <;> rfl
  simp only [nextByKey, within, itemsBytes, List.append_assoc, outcome_bind, outcome_cursor, going,
    ok_map, ok_bind, Bool.false_eq_true, if_false, Cursor.outcome_readTags_item formed,
    outcome_readKey formed.head formed.chunks, advances, ItemReader.announced]
  cases key.body.key with
  | error e => rfl
  | ok found =>
    simp only [ok_map, ok_bind]
    cases found.resolve shape with
    | some found =>
      simp only [outcome_ite]
      split <;> rfl
    | none =>
      simp only [outcome_ite]
      split
      · simp only [outcome_bind, outcome_cursor,
          Cursor.outcome_skipItem readableValue.wellFormed readableValue.small]
        rfl
      · rfl

theorem outcome_nextElement_of_keyed (keyed : shape.hasKeys = true) (remaining : Option Nat)
    (index : Nat) (decoder : Decoder) :
    outcome (nextElement config ⟨shape, remaining, index⟩) decoder =
      outcome (nextByKey config (decoder.rest.length + 1) ⟨shape, remaining, index⟩) decoder := by
  simp [nextElement, keyed]

theorem length_le_within (framing : Framing) (items : List Item) (rest : Bytes) :
    items.length ≤ (within framing items rest).rest.length := by
  have bound := Item.length_le_itemsBytes items
  simp only [within, List.length_append]
  omega

theorem length_entries_le_within (framing : Framing) (entries : List (Item × Item)) (rest : Bytes) :
    entries.length ≤ (within framing (flattened entries) rest).rest.length := by
  have bound := length_le_within framing (flattened entries) rest
  rw [length_flattened] at bound
  omega

def placeNext (config : Config) (fields : List (FieldReader (DecodeM Value))) (rounds : Nat)
    (seen : List (String × Value)) (next : Option Nat × OpenStructure) :
    DecodeM (List (String × Value) × OpenStructure) :=
  match next with
  | (none, s) => return (seen, s)
  | (some index, s) =>
    let name := s.shape.elementName index
    match fields.find? (·.name == name) with
    | some field =>
      if (seen.lookup name).isSome then throw (.mismatch (.duplicateField name))
      else do
        let value ← field.read
        fieldRounds config fields rounds s ((name, value) :: seen)
    | none => do
      discard readIgnored
      fieldRounds config fields rounds s seen

theorem fieldRounds_succ (fields : List (FieldReader (DecodeM Value))) (rounds : Nat)
    (s : OpenStructure) (seen : List (String × Value)) :
    fieldRounds config fields (rounds + 1) s seen =
      nextElement config s >>= placeNext config fields rounds seen := by
  rw [fieldRounds]
  rfl

section
variable {fields : List (FieldReader (DecodeM Value))} {told : List (FieldReader (ItemReader Value))}

theorem outcome_placeNext (follows : List.Forall₂ FieldReader.Follows fields told) {item : Item}
    (readable : item.Readable) (rounds index : Nat) (s : OpenStructure) (seen : List (String × Value))
    (field : Option Element) (items : List Item) (rest : Bytes) :
    outcome (placeNext config fields rounds seen (some index, s)) (facing field item framing items rest) =
      (do
        let seen ← ItemReader.place s.shape told seen index field item
        outcome (fieldRounds config fields rounds s seen) (within framing items rest)) := by
  rcases FieldReader.find?_follows follows (s.shape.elementName index) with
    ⟨none, none'⟩ | ⟨field', twin, found, found', here⟩
  · have passed := (follows_readIgnored item readable).facing field framing items rest
    simp only [placeNext, ItemReader.place, none, none', outcome_bind, outcome_discard, passed]
    rfl
  · simp only [placeNext, ItemReader.place, found, found', outcome_ite]
    split
    · rfl
    · simp only [outcome_bind, (here.read item readable).facing]
      cases twin.read.on field item <;> rfl

theorem outcome_placeItems (config : Config) (framing : Framing)
    (follows : List.Forall₂ FieldReader.Follows fields told)
    (unkeyed : shape.hasKeys = false) (plain : shape.isArrayFramed = false)
    (even : shape.kind = .map → total % 2 = 0) {items : List Item}
    (readable : ∀ item ∈ items, item.Readable) (bound : items.length ≤ total)
    (seen : List (String × Value)) (rest : Bytes) {rounds : Nat} (enough : items.length < rounds) :
    outcome (fieldRounds config fields rounds (standing shape framing total items.length) seen)
        (within framing items rest) =
      (fun seen => ((seen, standing shape framing total 0), within framing [] rest)) <$>
        ItemReader.placeItems shape told seen (total - items.length) items := by
  obtain ⟨rounds, rfl⟩ : ∃ n, rounds = n + 1 := ⟨rounds - 1, by omega⟩
  induction items generalizing rounds seen with
  | nil =>
    rw [fieldRounds_succ, outcome_bind, List.length_nil,
      outcome_nextElement_nil unkeyed even]
    rfl
  | cons item items ih =>
    obtain ⟨rounds, rfl⟩ : ∃ n, rounds = n + 1 := ⟨rounds - 1, by simp at enough; omega⟩
    obtain ⟨first, readable⟩ := List.forall_mem_cons.mp readable
    have next : total - (items.length + 1) + 1 = total - items.length := by simp at bound; omega
    rw [fieldRounds_succ, outcome_bind,
      outcome_nextElement_cons unkeyed first.formed even bound, ok_bind,
      outcome_placeNext follows first, ItemReader.placeItems, List.length_cons, next, Shape.atPosition,
      if_neg (by simp [plain])]
    simp only [standing]
    cases ItemReader.place shape told seen (total - (items.length + 1)) none item with
    | error e => rfl
    | ok seen => exact ih readable (by simp at bound; omega) seen rounds (by simpa using enough)

theorem outcome_placeEntries (config : Config) (framing : Framing)
    (follows : List.Forall₂ FieldReader.Follows fields told)
    (keyed : shape.hasKeys = true) {entries : List (Item × Item)}
    (readable : ∀ entry ∈ entries, entry.1.Readable ∧ entry.2.Readable) (index : Nat)
    (seen : List (String × Value)) (rest : Bytes) {lookups rounds : Nat}
    (enough : entries.length < lookups) (places : entries.length ≤ rounds) :
    outcome (nextByKey config lookups ⟨shape, framing.announced entries.length, index⟩ >>=
        placeNext config fields rounds seen) (within framing (flattened entries) rest) =
      (fun seen => ((seen, ⟨shape, framing.announced 0, index + entries.length⟩),
        within framing [] rest)) <$> ItemReader.placeEntries config shape told seen entries := by
  obtain ⟨lookups, rfl⟩ : ∃ n, lookups = n + 1 := ⟨lookups - 1, by omega⟩
  induction entries generalizing lookups rounds index seen with
  | nil =>
    rw [outcome_bind, flattened_nil, List.length_nil, outcome_nextByKey_nil keyed]
    rfl
  | cons entry entries ih =>
    rcases entry with ⟨key, value⟩
    obtain ⟨lookups, rfl⟩ : ∃ n, lookups = n + 1 := ⟨lookups - 1, by simp at enough; omega⟩
    obtain ⟨rounds, rfl⟩ : ∃ n, rounds = n + 1 := ⟨rounds - 1, by simp at places; omega⟩
    obtain ⟨first, readable⟩ := List.forall_mem_cons.mp readable
    have next : index + (entries.length + 1) = index + 1 + entries.length := by omega
    simp only [flattened_cons, List.length_cons, outcome_bind, next]
    rw [outcome_nextByKey_cons keyed first]
    simp only [ItemReader.placeEntries, List.foldlM_cons, ItemReader.placeEntry]
    cases ItemReader.announced config shape key with
    | error e => rfl
    | ok found =>
      cases found with
      | none =>
        have passed := ih readable (index + 1) seen
          (show entries.length ≤ rounds + 1 by simp at places; omega) lookups (by simpa using enough)
        rw [outcome_bind] at passed
        exact passed
      | some found =>
        simp only [ok_bind, outcome_placeNext follows first.2]
        cases ItemReader.place shape told seen found (some (shape.element found)) value with
        | error e => rfl
        | ok seen =>
          have others := ih readable (index + 1) seen (by simpa using places) _
            (Nat.lt_succ_of_le (length_entries_le_within framing entries rest))
          rw [outcome_bind] at others
          simp only [ok_bind, fieldRounds_succ, outcome_bind, outcome_nextElement_of_keyed keyed]
          exact others

end

end Decoder
end TypedCbor
