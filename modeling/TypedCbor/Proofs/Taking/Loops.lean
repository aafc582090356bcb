import TypedCbor.Proofs.Taking.Structures

namespace TypedCbor

structure Slot.Alike (slot slot' : Slot (DecodeM Value)) : Prop where
  reads : Twins slot.read slot'.read
  ofByte : slot.ofByte = slot'.ofByte

structure FieldReader.Alike (field field' : FieldReader (DecodeM Value)) : Prop where
  reads : Twins field.read field'.read
  name : field.name = field'.name
  fallback : field.fallback = field'.fallback
  optional : field.optional = field'.optional

theorem Takes.within {read twin : DecodeM (α × OpenStructure)} (takes : Takes (·.2.remaining = none) read twin)
    {put : α × OpenStructure → β × OpenStructure} (kept : ∀ p, (put p).2 = p.2) :
    Takes (·.2.remaining = none) (read >>= fun p => pure (put p)) (twin >>= fun p => pure (put p)) :=
  takes.bind (fun _ => takes_pure _) fun p opens => .inl (gives_pure (by rw [kept, opens]))

namespace Decoder

section
variable {strict lenient config : Config} {item item' : DecodeM α} {key key' : DecodeM α}
  {value value' : DecodeM β}

theorem takes_elementRounds (relaxes : lenient.Relaxes strict) (twins : Twins item item') (rounds : Nat)
    (s : OpenStructure) :
    Takes (·.2.remaining = none) (elementRounds strict item rounds s)
      (elementRounds lenient item' rounds s) := by
  induction rounds generalizing s with
  | zero => exact takes_throw _ _
  | succ rounds ih =>
    rw [elementRounds, elementRounds]
    refine (takes_nextElement relaxes s).bind (fun p => ?_) fun p opens => ?_
    · rcases p with ⟨_ | index, s⟩
      · exact takes_pure _
      · exact twins.takes.andThen fun _ => (ih s).within fun _ => rfl
    · rcases p with ⟨_ | index, s⟩
      · exact .inl (gives_pure opens)
      · exact .inr (twins.moves.bind fun _ => (ih s).within fun _ => rfl)

theorem elementRounds_agree {bound : Nat} (moves : Moves item)
    (agree : ∀ decoder : Decoder, decoder.rest.length ≤ bound → item decoder = item' decoder)
    {rounds rounds' : Nat} {s : OpenStructure} {decoder : Decoder} (within : decoder.rest.length ≤ bound)
    (enough : decoder.rest.length < rounds) (enough' : decoder.rest.length < rounds') :
    elementRounds config item rounds s decoder = elementRounds config item' rounds' s decoder := by
  induction rounds generalizing rounds' s decoder with
  | zero => cases enough
  | succ rounds ih =>
    obtain ⟨rounds', rfl⟩ : ∃ n, rounds' = n + 1 := ⟨rounds' - 1, by omega⟩
    rw [elementRounds, elementRounds]
    refine ran_bind_congr fun p after found => ?_
    have first := length_le_of_nextElement found
    rcases p with ⟨_ | index, s⟩
    · rfl
    · refine (ran_bind_congr fun a behind found => ?_).trans (ran_bind (agree after (by omega)) _)
      have second := moves _ _ _ found
      exact ran_bind (ih (by omega) (by omega) (by omega)) _

theorem takes_readElements (relaxes : lenient.Relaxes strict) (twins : Twins item item')
    (s : OpenStructure) :
    Takes (·.2.remaining = none) (readElements strict item s) (readElements lenient item' s) := by
  refine takes_rounds (· + 1) (fun rounds => takes_elementRounds relaxes twins rounds s) ?_ ?_
  · exact fun count decoder enough =>
      outcome_congr
        (elementRounds_agree twins.moves (fun _ _ => rfl) (Nat.le_refl _) enough (Nat.lt_succ_self _))
  · exact fun count decoder enough =>
      outcome_congr
        (elementRounds_agree twins.moves' (fun _ _ => rfl) (Nat.le_refl _) enough (Nat.lt_succ_self _))

def entryValue (config : Config) (value : DecodeM β) (others : OpenStructure → DecodeM (List (α × β) × OpenStructure))
    (k : α) (s : OpenStructure) : DecodeM (List (α × β) × OpenStructure) := do
  match ← nextElement config s with
  | (none, _) => throw (.malformedHeader breakByte)
  | (some _, s) =>
    let v ← value
    let (rest, s) ← others s
    return ((k, v) :: rest, s)

theorem takes_entryValue (relaxes : lenient.Relaxes strict) (values : Twins value value')
    {others others' : OpenStructure → DecodeM (List (α × β) × OpenStructure)}
    (goesOn : ∀ s, Takes (·.2.remaining = none) (others s) (others' s)) (k : α) (s : OpenStructure) :
    Takes (·.2.remaining = none) (entryValue strict value others k s) (entryValue lenient value' others' k s) := by
  refine (takes_nextElement relaxes s).bind (fun p => ?_) fun p _ => .inr ?_
  · rcases p with ⟨_ | index, s⟩
    · exact takes_throw _ _
    · exact values.takes.andThen fun _ => (goesOn s).within fun _ => rfl
  · rcases p with ⟨_ | index, s⟩
    · exact moves_throw _
    · exact values.moves.bind fun _ => (goesOn s).within fun _ => rfl

theorem takes_entryRounds (relaxes : lenient.Relaxes strict) (keys : Twins key key')
    (values : Twins value value') (rounds : Nat) (s : OpenStructure) :
    Takes (·.2.remaining = none) (entryRounds strict key value rounds s)
      (entryRounds lenient key' value' rounds s) := by
  induction rounds generalizing s with
  | zero => exact takes_throw _ _
  | succ rounds ih =>
    have behind (k : α) (s : OpenStructure) := takes_entryValue relaxes values ih k s
    rw [entryRounds, entryRounds]
    refine (takes_nextElement relaxes s).bind (fun p => ?_) fun p opens => ?_
    · rcases p with ⟨_ | index, s⟩
      · exact takes_pure _
      · exact keys.takes.andThen fun k => behind k s
    · rcases p with ⟨_ | index, s⟩
      · exact .inl (gives_pure opens)
      · exact .inr (keys.moves.bind fun k => behind k s)

theorem entryValue_agree {others others' : OpenStructure → DecodeM (List (α × β) × OpenStructure)}
    {decoder : Decoder} (valuesMove : Moves value)
    (valuesAgree : ∀ next : Decoder, next.rest.length ≤ decoder.rest.length → value next = value' next)
    (othersAgree : ∀ s (next : Decoder), next.rest.length < decoder.rest.length → others s next = others' s next)
    (k : α) (s : OpenStructure) :
    entryValue config value others k s decoder = entryValue config value' others' k s decoder := by
  refine ran_bind_congr fun p after found => ?_
  have first := length_le_of_nextElement found
  rcases p with ⟨_ | index, s⟩
  · rfl
  · refine (ran_bind_congr fun v behind found => ?_).trans (ran_bind (valuesAgree after first) _)
    have second := valuesMove _ _ _ found
    exact ran_bind (othersAgree s behind (by omega)) _

theorem entryRounds_agree {bound : Nat} (keysMove : Moves key) (valuesMove : Moves value)
    (keysAgree : ∀ decoder : Decoder, decoder.rest.length ≤ bound → key decoder = key' decoder)
    (valuesAgree : ∀ decoder : Decoder, decoder.rest.length ≤ bound → value decoder = value' decoder)
    {rounds rounds' : Nat} {s : OpenStructure} {decoder : Decoder} (within : decoder.rest.length ≤ bound)
    (enough : decoder.rest.length < rounds) (enough' : decoder.rest.length < rounds') :
    entryRounds config key value rounds s decoder = entryRounds config key' value' rounds' s decoder := by
  induction rounds generalizing rounds' s decoder with
  | zero => cases enough
  | succ rounds ih =>
    obtain ⟨rounds', rfl⟩ : ∃ n, rounds' = n + 1 := ⟨rounds' - 1, by omega⟩
    rw [entryRounds, entryRounds]
    refine ran_bind_congr fun p after found => ?_
    have first := length_le_of_nextElement found
    rcases p with ⟨_ | index, s⟩
    · rfl
    · refine (ran_bind_congr fun k behind found => ?_).trans (ran_bind (keysAgree after (by omega)) _)
      have second := keysMove _ _ _ found
      exact entryValue_agree valuesMove (fun next _ => valuesAgree next (by omega))
        (fun s next _ => ih (by omega) (by omega) (by omega)) k s

theorem takes_readEntries (relaxes : lenient.Relaxes strict) (keys : Twins key key')
    (values : Twins value value') (s : OpenStructure) :
    Takes (·.2.remaining = none) (readEntries strict key value s) (readEntries lenient key' value' s) := by
  refine takes_rounds (· + 1) (fun rounds => takes_entryRounds relaxes keys values rounds s) ?_ ?_
  · exact fun count decoder enough => outcome_congr (entryRounds_agree keys.moves values.moves (fun _ _ => rfl)
      (fun _ _ => rfl) (Nat.le_refl _) enough (Nat.lt_succ_self _))
  · exact fun count decoder enough => outcome_congr (entryRounds_agree keys.moves' values.moves' (fun _ _ => rfl)
      (fun _ _ => rfl) (Nat.le_refl _) enough (Nat.lt_succ_self _))

end

section
variable {strict lenient config : Config}

theorem takes_fillFromElements (relaxes : lenient.Relaxes strict) (expected : String) (filled : Nat)
    {slots slots' : List (Slot (DecodeM Value))} (alike : List.Forall₂ Slot.Alike slots slots')
    (s : OpenStructure) :
    Takes (·.2.remaining = none) (fillFromElements strict expected filled slots s)
      (fillFromElements lenient expected filled slots' s) := by
  induction alike generalizing filled s with
  | nil => exact takes_pure _
  | @cons slot slot' slots slots' first _ ih =>
    rw [fillFromElements, fillFromElements]
    refine (takes_nextElement relaxes s).bind (fun p => ?_) fun p _ => .inr ?_
    · rcases p with ⟨_ | index, s⟩
      · exact takes_throw _ _
      · exact first.reads.takes.andThen fun _ => (ih (filled + 1) s).within fun _ => rfl
    · rcases p with ⟨_ | index, s⟩
      · exact moves_throw _
      · exact first.reads.moves.bind fun _ => (ih (filled + 1) s).within fun _ => rfl

theorem fillFromBytes_alike (expected : String) (filled : Nat) {slots slots' : List (Slot (DecodeM Value))}
    (alike : List.Forall₂ Slot.Alike slots slots') (bytes : Bytes) :
    fillFromBytes expected filled slots bytes = fillFromBytes expected filled slots' bytes := by
  induction alike generalizing filled bytes with
  | nil => rfl
  | cons first _ ih =>
    cases bytes with
    | nil => rfl
    | cons byte bytes => rw [fillFromBytes, fillFromBytes, first.ofByte, ih]

theorem gives_takeFields (expected : String) (taken : Nat) (fields : List (FieldReader (DecodeM Value)))
    {s : OpenStructure} (opens : s.remaining = none) :
    Gives (takeFields config expected taken fields s) (·.2.remaining = none) := by
  induction fields generalizing taken s with
  | nil => exact gives_pure opens
  | cons field fields ih =>
    rw [takeFields]
    refine (gives_nextElement opens).bind fun p opens => ?_
    rcases p with ⟨_ | index, s⟩
    · cases field.fallback with
      | some value => exact (ih (taken + 1) opens).bind fun _ opens => gives_pure opens
      | none => exact gives_throw _
    · exact Gives.after fun value => (ih (taken + 1) opens).bind fun _ opens => gives_pure opens

theorem takes_takeFields (relaxes : lenient.Relaxes strict) (expected : String) (taken : Nat)
    {fields fields' : List (FieldReader (DecodeM Value))} (alike : List.Forall₂ FieldReader.Alike fields fields')
    (s : OpenStructure) :
    Takes (·.2.remaining = none) (takeFields strict expected taken fields s)
      (takeFields lenient expected taken fields' s) := by
  induction alike generalizing taken s with
  | nil => exact takes_pure _
  | @cons field field' fields fields' first _ ih =>
    rw [takeFields, takeFields, ← first.name, ← first.fallback]
    refine (takes_nextElement relaxes s).bind (fun p => ?_) fun p opens => ?_
    · rcases p with ⟨_ | index, s⟩
      · cases field.fallback with
        | some value => exact (ih (taken + 1) s).within fun _ => rfl
        | none => exact takes_throw _ _
      · exact first.reads.takes.andThen fun _ => (ih (taken + 1) s).within fun _ => rfl
    · rcases p with ⟨_ | index, s⟩
      · cases field.fallback with
        | some value =>
          exact .inl ((gives_takeFields expected (taken + 1) fields opens).bind fun _ opens => gives_pure opens)
        | none => exact .inr (moves_throw _)
      · exact .inr (first.reads.moves.bind fun _ => (ih (taken + 1) s).within fun _ => rfl)

theorem find?_alike {fields fields' : List (FieldReader (DecodeM Value))}
    (alike : List.Forall₂ FieldReader.Alike fields fields') (name : String) :
    (fields.find? (·.name == name) = none ∧ fields'.find? (·.name == name) = none) ∨
      ∃ field field', fields.find? (·.name == name) = some field ∧
        fields'.find? (·.name == name) = some field' ∧ field.Alike field' := by
  induction alike with
  | nil => exact .inl ⟨rfl, rfl⟩
  | @cons field field' _ _ first _ ih =>
    rw [List.find?_cons, List.find?_cons, ← first.name]
    cases field.name == name with
    | true => exact .inr ⟨field, field', rfl, rfl, first⟩
    | false => exact ih

theorem moves_of_alike {fields fields' : List (FieldReader (DecodeM Value))}
    (alike : List.Forall₂ FieldReader.Alike fields fields') :
    (∀ field ∈ fields, Moves field.read) ∧ ∀ field ∈ fields', Moves field.read := by
  induction alike with
  | nil => exact ⟨by simp, by simp⟩
  | cons first _ ih =>
    exact ⟨List.forall_mem_cons.mpr ⟨first.reads.moves, ih.1⟩,
      List.forall_mem_cons.mpr ⟨first.reads.moves', ih.2⟩⟩

theorem delimits_readIgnored : Delimits fun _ => readIgnored := by
  have cleared : Takes (fun _ => False)
      (modify fun decoder : Decoder => { decoder with pendingTags := [], field := none })
      (modify fun decoder : Decoder => { decoder with pendingTags := [], field := none }) :=
    takes_modify fun _ _ => rfl
  refine ⟨fun _ => ?_, fun _ => ?_⟩
  · exact cleared.andThen (fun _ => Cursor.takes_skipItem.andThen (fun _ => takes_pure _))
  · exact Moves.after cleared fun _ => Cursor.moves_skipItem.thenPure _

theorem takes_fieldRounds (relaxes : lenient.Relaxes strict)
    {fields fields' : List (FieldReader (DecodeM Value))} (alike : List.Forall₂ FieldReader.Alike fields fields')
    (rounds : Nat) (s : OpenStructure) (seen : List (String × Value)) :
    Takes (·.2.remaining = none) (fieldRounds strict fields rounds s seen)
      (fieldRounds lenient fields' rounds s seen) := by
  induction rounds generalizing s seen with
  | zero => exact takes_throw _ _
  | succ rounds ih =>
    rw [fieldRounds, fieldRounds]
    have passes : TakesAlone (discard readIgnored) (discard readIgnored) :=
      (delimits_readIgnored.takes relaxes).discard fun _ => id
    refine (takes_nextElement relaxes s).bind (fun p => ?_) fun p opens => ?_
    · rcases p with ⟨_ | index, s⟩
      · exact takes_pure _
      · rcases find?_alike alike (s.shape.elementName index) with ⟨no, no'⟩ | ⟨field, field', found, found', same⟩
        · simp only [no, no']
          exact passes.andThen (fun _ => ih s seen)
        · simp only [found, found']
          split
          · exact takes_throw _ _
          · exact same.reads.takes.andThen (fun value => ih s _)
    · rcases p with ⟨_ | index, s⟩
      · exact .inl (gives_pure opens)
      · refine .inr ?_
        rcases find?_alike alike (s.shape.elementName index) with ⟨no, no'⟩ | ⟨field, field', found, found', same⟩
        · simp only [no]
          exact ((delimits_readIgnored.moves strict).map _).bind (fun _ => ih s seen)
        · simp only [found]
          split
          · exact moves_throw _
          · exact same.reads.moves.bind fun value => ih s _

theorem fieldRounds_enough {fields : List (FieldReader (DecodeM Value))} (move : ∀ field ∈ fields, Moves field.read)
    {rounds rounds' : Nat} {s : OpenStructure} {seen : List (String × Value)} {decoder : Decoder}
    (enough : decoder.rest.length < rounds) (enough' : decoder.rest.length < rounds') :
    outcome (fieldRounds config fields rounds s seen) decoder =
      outcome (fieldRounds config fields rounds' s seen) decoder := by
  induction rounds generalizing rounds' s seen decoder with
  | zero => cases enough
  | succ rounds ih =>
    obtain ⟨rounds', rfl⟩ : ∃ n, rounds' = n + 1 := ⟨rounds' - 1, by omega⟩
    rw [fieldRounds, fieldRounds]
    refine outcome_bind_congr fun p after found => ?_
    have first := length_le_of_nextElement found
    rcases p with ⟨_ | index, s⟩
    · rfl
    · dsimp only
      cases known : fields.find? (·.name == s.shape.elementName index) with
      | none =>
        refine outcome_bind_congr fun _ rest found => ?_
        have second := ((delimits_readIgnored.moves config).map _) _ _ _ found
        exact ih (by omega) (by omega)
      | some field =>
        dsimp only
        rw [outcome_ite, outcome_ite]
        split
        · rfl
        · refine outcome_bind_congr fun value rest found => ?_
          have second := move field (List.mem_of_find?_eq_some known) _ _ _ found
          exact ih (by omega) (by omega)

theorem names_alike {fields fields' : List (FieldReader (DecodeM Value))}
    (alike : List.Forall₂ FieldReader.Alike fields fields') : fields.map (·.name) = fields'.map (·.name) := by
  induction alike with
  | nil => rfl
  | cons first _ ih => rw [List.map_cons, List.map_cons, first.name, ih]

theorem mapM_complete_alike {fields fields' : List (FieldReader (DecodeM Value))}
    (alike : List.Forall₂ FieldReader.Alike fields fields') (seen : List (String × Value)) :
    fields.mapM (FieldReader.complete seen) = fields'.mapM (FieldReader.complete seen) := by
  induction alike with
  | nil => rfl
  | @cons field field' _ _ first _ ih =>
    have same : FieldReader.complete seen field = FieldReader.complete seen field' := by
      rw [FieldReader.complete, FieldReader.complete, first.name, first.fallback, first.optional]
    rw [List.mapM_cons, List.mapM_cons, same, ih]

theorem takes_readFields (relaxes : lenient.Relaxes strict)
    {fields fields' : List (FieldReader (DecodeM Value))} (alike : List.Forall₂ FieldReader.Alike fields fields')
    (s : OpenStructure) :
    Takes (·.2.remaining = none) (readFields strict fields s) (readFields lenient fields' s) := by
  obtain ⟨move, move'⟩ := moves_of_alike alike
  have loops : Takes (·.2.remaining = none)
      (do fieldRounds strict fields ((← get).rest.length + 1) s [])
      (do fieldRounds lenient fields' ((← get).rest.length + 1) s []) := by
    refine takes_rounds (· + 1) (fun rounds => takes_fieldRounds relaxes alike rounds s []) ?_ ?_
    · exact fun count decoder enough => fieldRounds_enough move enough (Nat.lt_succ_self _)
    · exact fun count decoder enough => fieldRounds_enough move' enough (Nat.lt_succ_self _)
  have completed : Takes (·.2.remaining = none)
      ((do fieldRounds strict fields ((← get).rest.length + 1) s []) >>= fun p => do
        return (← ofExcept (fields.mapM (FieldReader.complete p.1)), p.2))
      ((do fieldRounds lenient fields' ((← get).rest.length + 1) s []) >>= fun p => do
        return (← ofExcept (fields'.mapM (FieldReader.complete p.1)), p.2)) := by
    simp only [← mapM_complete_alike alike]
    refine loops.bind (fun p => (takes_ofExcept _).andThen fun _ => takes_pure _) fun p opens => .inl ?_
    exact Gives.after fun _ => gives_pure opens
  simpa only [readFields, bind_assoc] using completed

end
end Decoder
end TypedCbor
